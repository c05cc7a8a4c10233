import ScriptLint.Proofs.Relocation

/-! Scripts one after the other.

A script is settled when it ends with a line break and leaves nothing open: no string, no
template, no comment (`Settled`).  What follows it is then read as if it stood alone:

    analyze (a ++ b) = .ok (fa ++ fb.map (Finding.map (further a.length)))      (analyze_append)

* No reader that comes to its end inside `a` looks further (`Lexeme.read_append`,
  `templateEnd_append`); so the scan of `a ++ b` is that of `a` up to the end of `a`
  (`Scan.finish_extend`), and it is back in code outside of all templates.
* From there on it is the scan of `b` with offsets moved (`Scan.findings_finish_moved`). -/

namespace ScriptLint.Lexer

open Grammar (marks)

/-- A finding that leaves nothing open. -/
def Settled (f : Finding) : Prop :=
  f.kind = .unopenedBlockComment ∨ f.kind = .strayAt ∨ f.kind = .strayHash

instance (f : Finding) : Decidable (Settled f) :=
  inferInstanceAs (Decidable (_ ∨ _))

/-- Offsets in a text that stands `k` bytes further back. -/
def further (k : Nat) : Nat ↪o Nat :=
  OrderEmbedding.ofStrictMono (fun i => i + k) fun _ _ h => Nat.add_lt_add_right h k

@[simp]
theorem further_apply (k i : Nat) : further k i = i + k := rfl

/-! ## Readers that do not come to the end -/

section
variable {k n : Nat} {ms : List Mark}

/-- What follows a text that is not empty is not seen by a look at its next mark. -/
theorem exists_of_append {m : Mark} {more tail : List Mark} (hne : ms ≠ [])
    (h : ms ++ more = m :: tail) : ∃ tail', ms = m :: tail' := by
  obtain ⟨m', ms, rfl⟩ := List.exists_cons_of_ne_nil hne
  exact ⟨ms, by rw [(List.cons.inj h).1]⟩

theorem stringEnd_append {q : Quote} (h : stringEnd q k ms = .closed n) (more : List Mark) :
    stringEnd q k (ms ++ more) = .closed n := by
  fun_induction stringEnd q k ms with
  | case1 => cases h
  | case2 => cases h
  | case3 k rest ih =>
    have hrest := ih h
    simpa [stringEnd] using hrest
  | case4 k m rest hne ih =>
    refine (stringEnd_escape ?_).trans (ih h)
    intro tail hm htail
    -- a return at the very end would have been the end of an open string
    have hrest : rest ≠ [] := by
      rintro rfl
      cases h
    obtain ⟨tail', htail'⟩ := exists_of_append hrest htail
    exact hne tail' hm htail'
  | case5 k rest =>
    rw [← h]
    simp [stringEnd]
  | case6 k p rest hp ih =>
    have hrest := ih h
    simpa [stringEnd, hp] using hrest
  | case7 => cases h
  | case8 => cases h
  | case9 => cases h
  | case10 k m rest h1 h2 h3 h4 h5 h6 h7 ih =>
    exact (stringEnd_other (ne_of_cases h1 h3) (h4 q) h7 h6).trans (ih h)

theorem commentEnd?_append (h : commentEnd? k ms = some n) (more : List Mark) :
    commentEnd? k (ms ++ more) = some n := by
  fun_induction commentEnd? k ms with
  | case1 => cases h
  | case2 k rest =>
    rw [← h]
    rfl
  | case3 k m rest hne ih =>
    refine (commentEnd?_other ?_).trans (ih h)
    intro tail hm htail
    have hrest : rest ≠ [] := by
      rintro rfl
      cases h
    obtain ⟨tail', htail'⟩ := exists_of_append hrest htail
    exact hne tail' hm htail'

theorem templateEnd_append (h : templateEnd k ms ≠ .cut) (more : List Mark) :
    templateEnd k (ms ++ more) = templateEnd k ms := by
  fun_induction templateEnd k ms with
  | case1 => exact absurd rfl h
  | case2 => exact absurd rfl h
  | case3 k m rest ih =>
    have hrest := ih h
    simpa [templateEnd] using hrest
  | case4 k rest => simp [templateEnd]
  | case5 k rest => simp [templateEnd]
  | case6 k m rest h1 h2 h3 h4 ih =>
    refine (templateEnd_other (ne_of_cases h1 h2) h3 ?_).trans (ih h)
    intro tail hm htail
    have hrest : rest ≠ [] := by
      rintro rfl
      exact h rfl
    obtain ⟨tail', htail'⟩ := exists_of_append hrest htail
    exact h4 tail' hm htail'

/-- A line that ends inside a text is not changed by what follows. -/
theorem line_append (h : ∃ m ∈ ms, m.isBreak = true) (more : List Mark) :
    line (ms ++ more) = line ms := by
  unfold line
  induction ms with
  | nil => simp at h
  | cons m ms ih =>
    by_cases hm : m.isBreak = true
    · simp [hm]
    · have hms : ∃ m ∈ ms, m.isBreak = true := by simpa [hm] using h
      simp [hm, ih hms]

end

/-- The last mark of what is left, if anything is left, is a line break. -/
def EndsBroken (ms : List Mark) : Prop :=
  ∀ m ∈ ms.getLast?, m.isBreak = true

theorem EndsBroken.drop {ms : List Mark} (h : EndsBroken ms) (n : Nat) :
    EndsBroken (ms.drop n) := by
  intro m hm
  rw [List.getLast?_drop] at hm
  split at hm
  · cases hm
  · exact h m hm

theorem EndsBroken.exists_break {m : Mark} {rest : List Mark} (h : EndsBroken (m :: rest)) :
    ∃ b ∈ m :: rest, b.isBreak = true := by
  obtain ⟨b, hb⟩ : ∃ b, (m :: rest).getLast? = some b := by simp [List.getLast?_cons]
  exact ⟨b, List.mem_of_getLast? hb, h b hb⟩

theorem EndsBroken.ne_nil {m : Mark} {rest : List Mark} (h : EndsBroken (m :: rest))
    (hm : m.isBreak = false) : rest ≠ [] := by
  rintro rfl
  rw [h m rfl] at hm
  cases hm

theorem Lexeme.string_append {q : Quote} {rest : List Mark}
    (h : ∀ width n, Lexeme.string q rest ≠ .fault .unclosedString width n) (more : List Mark) :
    Lexeme.string q (rest ++ more) = Lexeme.string q rest := by
  unfold Lexeme.string at h ⊢
  cases hs : stringEnd q 0 rest with
  | closed n => rw [stringEnd_append hs more]
  | broken n width next =>
    rw [hs] at h
    exact absurd rfl (h _ _)
  | cut n =>
    rw [hs] at h
    exact absurd rfl (h _ _)

theorem Lexeme.blockComment_append {tail : List Mark}
    (h : ∀ width n, Lexeme.blockComment (.star :: tail) ≠ .fault .unclosedBlockComment width n)
    (more : List Mark) :
    Lexeme.blockComment (.star :: tail ++ more) = Lexeme.blockComment (.star :: tail) := by
  unfold Lexeme.blockComment at h ⊢
  simp only [List.cons_append, List.drop_succ_cons, List.drop_zero] at h ⊢
  cases hc : commentEnd? 1 tail with
  | some n => rw [commentEnd?_append hc more]
  | none =>
    rw [hc] at h
    exact absurd rfl (h _ _)

/-- An item that leaves nothing open is read alike whatever follows its line. -/
theorem Lexeme.read_append {m : Mark} {rest : List Mark} (hlast : EndsBroken (m :: rest))
    (hstring : ∀ width n, Lexeme.read m rest ≠ .fault .unclosedString width n)
    (hcomment : ∀ width n, Lexeme.read m rest ≠ .fault .unclosedBlockComment width n)
    (more : List Mark) : Lexeme.read m (rest ++ more) = Lexeme.read m rest := by
  cases m with
  | quote q => exact string_append hstring more
  | slash =>
    obtain ⟨next, tail, rfl⟩ := List.exists_cons_of_ne_nil (hlast.ne_nil rfl)
    by_cases hstar : next = .star
    · subst hstar
      exact blockComment_append hcomment more
    · by_cases hslash : next = .slash
      · subst hslash
        have hbreak : ∃ b ∈ Mark.slash :: tail, b.isBreak = true := by
          simpa [Mark.isBreak] using hlast.exists_break
        show Lexeme.plain (line (.slash :: tail ++ more)).length =
          .plain (line (.slash :: tail)).length
        rw [line_append hbreak more]
      · simp [Lexeme.read, hstar, hslash]
  | star =>
    obtain ⟨next, tail, rfl⟩ := List.exists_cons_of_ne_nil (hlast.ne_nil rfl)
    by_cases hslash : next = .slash
    · subst hslash
      rfl
    · simp [Lexeme.read, hslash]
  | hash =>
    obtain ⟨next, tail, rfl⟩ := List.exists_cons_of_ne_nil (hlast.ne_nil rfl)
    rfl
  | _ => rfl

/-! ## The scan of the first script -/

namespace Scan

/-- The scan on a text that goes on. -/
def extend (s : Scan) (more : List Mark) : Scan :=
  { s with rest := s.rest ++ more }

section
variable {s : Scan} (more : List Mark)

theorem extend_skip {n : Nat} (h : n ≤ s.rest.length) :
    (s.skip n).extend more = (s.extend more).skip n := by
  unfold extend skip
  simp only [List.drop_append_of_le_length h]

theorem not_settled_unclosedTemplate (start stop : Nat) :
    ¬ Settled (unclosedTemplate start stop) := by
  rintro (h | h | h) <;> cases h

/-- Template text that is not left open is read alike when the text goes on. -/
theorem extend_template {start : Nat} (h : ∀ f ∈ (s.template start).found, Settled f) :
    (s.template start).extend more = (s.extend more).template start := by
  have hfits := templateEnd_fits 0 s.rest
  rw [Nat.zero_add] at hfits
  have hrest : (s.extend more).rest = s.rest ++ more := rfl
  have hopen : templateEnd 0 s.rest ≠ .cut := by
    intro hcut
    unfold template at h
    rw [hcut] at h
    exact not_settled_unclosedTemplate _ _ (h _ List.mem_cons_self)
  unfold template
  rw [hrest, templateEnd_append hopen more]
  cases he : templateEnd 0 s.rest with
  | closed n =>
    rw [he] at hfits
    exact extend_skip more hfits
  | substitution n =>
    rw [he] at hfits
    simp only [← extend_skip more hfits]
    rfl
  | cut => exact absurd he hopen

theorem extend_openBrace : s.openBrace.extend more = (s.extend more).openBrace := by
  obtain ⟨pos, rest, waiting, found⟩ := s
  cases waiting <;> rfl

theorem extend_closeBrace (h : ∀ f ∈ s.closeBrace.found, Settled f) :
    s.closeBrace.extend more = (s.extend more).closeBrace := by
  obtain ⟨pos, rest, waiting, found⟩ := s
  match waiting with
  | [] => rfl
  | ⟨start, 0⟩ :: outer => exact extend_template (s := ⟨pos, rest, outer, found⟩) more h
  | ⟨start, braces + 1⟩ :: outer => rfl

theorem extend_consume {m : Mark} {rest : List Mark} {item : Lexeme} (hs : s.rest = m :: rest)
    (hfits : item.Fits rest.length) (h : ∀ f ∈ (s.consume item).found, Settled f) :
    (s.consume item).extend more = (s.extend more).consume item := by
  have hlen : s.rest.length = rest.length + 1 := by rw [hs]; rfl
  have hone : (s.skip 1).extend more = (s.extend more).skip 1 := extend_skip more (by omega)
  cases item with
  | plain n =>
    have hn : n + 1 ≤ s.rest.length := by rw [hlen]; exact Nat.succ_le_succ hfits
    exact extend_skip more hn
  | fault kind width n =>
    have hn : n + 1 ≤ s.rest.length := by rw [hlen]; exact Nat.succ_le_succ hfits.2
    exact extend_skip (s := s.report _) more hn
  | backtick =>
    simp only [consume]
    rw [extend_template more h, hone]
    rfl
  | braceOpen =>
    simp only [consume]
    rw [extend_openBrace, hone]
  | braceClose =>
    simp only [consume]
    rw [extend_closeBrace more h, hone]

theorem extend_step (hlast : EndsBroken s.rest) (hs : s.rest ≠ [])
    (h : ∀ f ∈ s.step.found, Settled f) : (s.extend more).step = s.step.extend more := by
  obtain ⟨m, rest, hcons⟩ := List.exists_cons_of_ne_nil hs
  rw [step_eq_consume hcons] at h ⊢
  have hfault : ∀ kind width n, Lexeme.read m rest = .fault kind width n →
      kind = .unopenedBlockComment ∨ kind = .strayAt ∨ kind = .strayHash := by
    intro kind width n hread
    rw [hread] at h
    have hsettled := h _ List.mem_cons_self
    unfold Settled at hsettled
    rwa [kind_faultAt] at hsettled
  have hread : Lexeme.read m (rest ++ more) = Lexeme.read m rest := by
    refine Lexeme.read_append (hcons ▸ hlast) ?_ ?_ more
    · intro width n hread
      rcases hfault _ _ _ hread with h | h | h <;> cases h
    · intro width n hread
      rcases hfault _ _ _ hread with h | h | h <;> cases h
  have hextend : (s.extend more).rest = m :: (rest ++ more) := by
    show s.rest ++ more = _
    rw [hcons]
    rfl
  rw [step_eq_consume hextend, hread]
  exact (extend_consume more hcons (Lexeme.read_fits m rest) h).symm

theorem mem_findings_of_found {s : Scan} {f : Finding} (h : f ∈ s.found) : f ∈ s.findings :=
  List.mem_append_left _ (List.mem_reverse.mpr h)

/-- The scan of a text that goes on comes to the end of the text as if it did not. -/
theorem finish_extend (hlast : EndsBroken s.rest) (h : ∀ f ∈ s.finish.findings, Settled f) :
    (s.extend more).finish = (s.finish.extend more).finish := by
  fun_induction finish s with
  | case1 s hs => rfl
  | case2 s hs ih =>
    obtain ⟨n, -, -, hrest⟩ := (Onward.step s).ahead
    have hstep : ∀ f ∈ s.step.found, Settled f := fun f hf =>
      h f (mem_findings_of_found ((Onward.finish s.step).found.subset hf))
    have hne : (s.extend more).rest ≠ [] := by
      intro hnil
      exact hs (List.append_eq_nil_iff.mp hnil).1
    rw [finish, dif_neg hne, extend_step more hlast hs hstep]
    refine ih ?_ h
    rw [hrest]
    exact hlast.drop n

/-- A scan without open findings ends outside of all templates. -/
theorem waiting_eq_nil {s : Scan} (h : ∀ f ∈ s.findings, Settled f) : s.waiting = [] := by
  rw [List.eq_nil_iff_forall_not_mem]
  intro sub hsub
  have hmem : unclosedTemplate sub.template s.stop ∈ s.findings :=
    List.mem_append_right _ (List.mem_map.mpr ⟨sub, List.mem_reverse.mpr hsub, rfl⟩)
  exact not_settled_unclosedTemplate _ _ (h _ hmem)

end

/-- The first line is passed over alike when it has an end. -/
theorem start_append {a : List Mark} (hne : a ≠ []) (hlast : EndsBroken a) (b : List Mark) :
    start (a ++ b) = (start a).extend b := by
  obtain ⟨m, rest, rfl⟩ := List.exists_cons_of_ne_nil hne
  have hline := line_append hlast.exists_break b
  by_cases hm : m = .hash
  · subst hm
    obtain ⟨next, tail, rfl⟩ := List.exists_cons_of_ne_nil (hlast.ne_nil rfl)
    by_cases hnext : next = .bang
    · subst hnext
      show (⟨0, _, [], []⟩ : Scan).skip (line (.hash :: .bang :: tail ++ b)).length = _
      rw [hline]
      exact (extend_skip (s := ⟨0, .hash :: .bang :: tail, [], []⟩) b (length_line_le _)).symm
    · simp [start, hnext, extend]
  · simp [start, hm, extend]

end Scan

/-! ## The scan of the second script -/

/-- The spelling that keeps every mark. -/
def verbatim (m : Mark) : List Mark :=
  [m]

theorem flatMap_verbatim (ms : List Mark) : ms.flatMap verbatim = ms :=
  List.flatMap_singleton' ms

theorem measures_further (k pos : Nat) (ms : List Mark) :
    Measures verbatim (further k) pos ms := by
  refine .of_getElem? fun i m _ => ?_
  show pos + i + 1 + k = pos + i + k + 1
  omega

theorem Measures.verbatim_eq {ψ : Nat → Nat} {ms : List Mark} {n : Nat}
    (h : Measures verbatim ψ 0 ms) (h0 : ψ 0 = 0) (hn : n ≤ ms.length) : ψ n = n := by
  have hadd := h.apply_add hn
  rw [flatMap_verbatim, List.length_take, Nat.zero_add, h0] at hadd
  omega

theorem Lexeme.map_eq_self {item : Lexeme} {ψ : Nat → Nat} {total : Nat}
    (hfits : item.Fits total) (h : ∀ n ≤ total, ψ n = n) : item.map ψ = item := by
  cases item with
  | plain n => rw [Lexeme.map, h n hfits]
  | fault kind width n =>
    rw [Lexeme.map, h width (Nat.le_trans hfits.1 hfits.2), h n hfits.2]
  | _ => rfl

theorem TemplateEnd.map_eq_self {e : TemplateEnd} {ψ : Nat → Nat} {total : Nat}
    (hfits : e.Fits total) (h : ∀ n ≤ total, ψ n = n) : e.map ψ = e := by
  cases e with
  | closed n => rw [TemplateEnd.map, h n hfits]
  | substitution n => rw [TemplateEnd.map, h n hfits]
  | cut => rfl

theorem faithful_verbatim (ms : List Mark) : Faithful verbatim ms := by
  refine ⟨?_, ?_, fun _ _ => .inl rfl⟩
  · intro m rest _ _ ψ h0 hm
    rw [flatMap_verbatim]
    exact (Lexeme.map_eq_self (Lexeme.read_fits m rest) fun n hn => hm.verbatim_eq h0 hn).symm
  · intro rest _ ψ h0 hm
    have hfits := templateEnd_fits 0 rest
    rw [Nat.zero_add] at hfits
    rw [flatMap_verbatim]
    exact (TemplateEnd.map_eq_self hfits fun n hn => hm.verbatim_eq h0 hn).symm

/-! ## Top theorems -/

theorem pos_finish_start (ms : List Mark) : (Scan.start ms).finish.pos = ms.length := by
  have hstop := (Scan.stop_finish (Scan.start ms)).trans (Scan.stop_start ms)
  unfold Scan.stop at hstop
  rwa [Scan.rest_finish] at hstop

/-- The findings of two scripts, one after the other, in the order in which they arise. -/
theorem findings_append {a b : List Mark} (hne : a ≠ []) (hlast : EndsBroken a)
    (hb : ¬ [.hash, .bang] <+: b) (h : ∀ f ∈ (Scan.start a).finish.findings, Settled f) :
    (Scan.start (a ++ b)).finish.findings =
      (Scan.start a).finish.findings ++
        (Scan.start b).finish.findings.map (Finding.map (further a.length)) := by
  have hbroken : EndsBroken (Scan.start a).rest := by
    rw [(rest_of_visits (.refl (s := Scan.start a))).1]
    exact hlast.drop _
  have hwaiting := Scan.waiting_eq_nil h
  have hrest := Scan.rest_finish (Scan.start a)
  have hpos := pos_finish_start a
  -- at the end of `a` the scan stands before `b` like the scan of `b` at its start
  have hjoin : (Scan.start a).finish.extend b =
      (Scan.start b).moved verbatim (further a.length) (Scan.start a).finish.found := by
    rw [Scan.start_of_not_shebang hb]
    generalize (Scan.start a).finish = s at *
    obtain ⟨pos, rest, waiting, found⟩ := s
    simp only at hwaiting hrest hpos
    subst hwaiting hrest hpos
    simp [Scan.extend, Scan.moved, flatMap_verbatim]
  have hfindings : (Scan.start a).finish.findings = (Scan.start a).finish.found.reverse := by
    unfold Scan.findings
    rw [hwaiting]
    simp
  rw [Scan.start_append hne hlast, Scan.finish_extend b hbroken h, hjoin,
    Scan.findings_finish_moved _ (faithful_verbatim _) (measures_further _ _ _), hfindings]

theorem first_lt_length {ms : List Mark} {f : Finding} (h : f ∈ scan ms) :
    f.span.first < ms.length := by
  have hbegun := (laminar_scan ms).begun f (mem_scan_iff.mp h)
  rwa [pos_finish_start] at hbegun

theorem endsBroken_marks {a : Bytes} (h : a.getLast? = some 0x0A ∨ a.getLast? = some 0x0D) :
    EndsBroken (marks a) := by
  intro m hm
  unfold marks at hm
  rw [List.getLast?_map] at hm
  rcases h with h | h
  · rw [h] at hm
    cases hm
    rfl
  · rw [h] at hm
    cases hm
    rfl

theorem not_shebang_marks {b : Bytes} (h : ¬ [0x23, 0x21] <+: b) :
    ¬ [.hash, .bang] <+: marks b := by
  rintro ⟨tail, htail⟩
  obtain ⟨t, rfl, ht⟩ := Grammar.exists_of_marks htail.symm rfl
  obtain ⟨t, rfl, -⟩ := Grammar.exists_of_marks ht rfl
  exact h ⟨t, rfl⟩

/-- A script that follows a settled one is analysed as if it stood alone. -/
theorem analyze_append {a b : Bytes} {fa : List Finding}
    (hend : a.getLast? = some 0x0A ∨ a.getLast? = some 0x0D) (hb : ¬ [0x23, 0x21] <+: b)
    (hlen : (a ++ b).length ≤ maxOffset) (ha : analyze a = .ok fa)
    (hsettled : ∀ f ∈ fa, Settled f) :
    ∃ fb, analyze b = .ok fb ∧
      analyze (a ++ b) = .ok (fa ++ fb.map (Finding.map (further a.length))) := by
  obtain rfl := scan_of_analyze ha
  have hne : marks a ≠ [] := by
    unfold marks
    rw [Ne, List.map_eq_nil_iff]
    rintro rfl
    rcases hend with h | h <;> cases h
  have hopen : ∀ f ∈ (Scan.start (marks a)).finish.findings, Settled f := fun f hf =>
    hsettled f (mem_scan_iff.mpr hf)
  have hfindings := findings_append hne (endsBroken_marks hend) (not_shebang_marks hb) hopen
  have hlength : (marks a).length = a.length := List.length_map _
  rw [hlength] at hfindings
  have hb : b.length ≤ maxOffset := by
    rw [List.length_append] at hlen
    omega
  refine ⟨scan (marks b), analyze_of_length_le hb, analyze_of_perm hlen ?_ ?_⟩
  · rw [List.map_append]
    refine (List.Perm.of_eq hfindings).trans ?_
    exact (List.mergeSort_perm _ _).symm.append ((List.mergeSort_perm _ _).symm.map _)
  · refine List.pairwise_append.mpr ⟨?_, ?_, ?_⟩
    · exact (pairwise_scan _).imp And.left
    · exact pairwise_map_scan _ _
    · intro f hf g hg
      obtain ⟨g, -, rfl⟩ := List.mem_map.mp hg
      have hlt := first_lt_length hf
      show f.span.first < g.span.first + a.length
      omega

/-- Stray characters in code and in a closed template, and a comment's end. -/
def settledScript : Bytes :=
  [0x40, 0x60, 0x24, 0x7B, 0x23, 0x7D, 0x60, 0x2A, 0x2F, 0x0D]

def settledFindings : List Finding :=
  [⟨.strayAt, .ofLength 0 1, [.ofLength 0 1]⟩, ⟨.strayHash, .ofLength 4 1, [.ofLength 4 1]⟩,
    ⟨.unopenedBlockComment, .ofLength 7 2, []⟩]

/-- A feed, which makes one break with a return before it, and an open string. -/
def openScript : Bytes :=
  [0x0A, 0x27, 0x78]

theorem analyze_settledScript : analyze settledScript = .ok settledFindings :=
  analyze_of_perm (by decide) (by decide +kernel) (by decide)

theorem analyze_openScript : analyze openScript = .ok [⟨.unclosedString, .ofLength 1 2, []⟩] :=
  analyze_of_perm (by decide) (by decide +kernel) (by decide)

theorem analyze_settledScript_append :
    settledScript.getLast? = some 0x0D ∧ ¬ [0x23, 0x21] <+: openScript ∧
    (settledScript ++ openScript).length ≤ maxOffset ∧
    analyze settledScript = .ok settledFindings ∧ (∀ f ∈ settledFindings, Settled f) ∧
    analyze (settledScript ++ openScript) =
      .ok (settledFindings ++ [⟨.unclosedString, .ofLength 11 2, []⟩]) := by
  have hend : settledScript.getLast? = some 0x0D := by decide
  have hb : ¬ [0x23, 0x21] <+: openScript := by decide
  have hlen : (settledScript ++ openScript).length ≤ maxOffset := by decide
  have hsettled : ∀ f ∈ settledFindings, Settled f := by decide
  refine ⟨hend, hb, hlen, analyze_settledScript, hsettled, ?_⟩
  obtain ⟨fb, hopen, happend⟩ :=
    analyze_append (.inr hend) hb hlen analyze_settledScript hsettled
  rw [analyze_openScript] at hopen
  cases hopen
  exact happend

end ScriptLint.Lexer
