import ScriptLint.Host
import ScriptLint.Proofs.Wording

/-! What an embedding program is told, from the calls that it made.

The calls so far decide the text behind a handle (`textBehind?`) and the locale in
force (`localeInForce?`).  A lint answers with one record for each finding in
that text, worded in that locale, and then the sentinel (`lint_reply`):

    (Lexer.analyze text).map (recordIn (localeInForce? calls)) ++ [sentinel]
      where textBehind? calls handle = some text

A document keeps its records apart from their messages, both cleared and filled again by
every lint (`Document.lint_spec`), and they stay until the next call on it (`shown_after_lint`).

A call changes what is behind each number in one way, in the host (`view?_call`)
and in the history (`textBehind?_append`), so the two agree after any run
(`Reflects.after`). -/

namespace ScriptLint

/-! ## What the calls say -/

namespace Host.Call

def isCreate : Call → Bool
  | .create => true
  | _ => false

/-- Whether a call destroys document `d`, if there is one. -/
def destroys (d : Nat) : Call → Bool
  | .destroy (some n) => n == d
  | _ => false

/-- The first `length` bytes at `source`; a null pointer gives only the empty text. -/
def effective? (source : Option Bytes) (length : Nat) : Option Bytes :=
  match source with
  | some bytes => some (bytes.take length)
  | none => if length = 0 then some [] else none

/-- The text that a call gives to document `d`, if there is one. -/
def text? (d : Nat) : Call → Option Bytes
  | .setText (some n) source length => if n = d then effective? source length else none
  | _ => none

/-- The document that a call changes, if there is one. -/
def target? : Call → Option Nat
  | .destroy handle => handle
  | .setText handle _ _ => handle
  | .lint handle => handle
  | _ => none

/-- The locale name that a call gives, up to its NUL. -/
def localeName? : Call → Option Bytes
  | .setLocale _ name => name.map Bytes.untilNul
  | _ => none

end Host.Call

namespace Host

/-- The calls after the one that created document `d`. -/
def since? : Nat → List Call → Option (List Call)
  | _, [] => none
  | 0, .create :: rest => some rest
  | d + 1, .create :: rest => since? d rest
  | d, _ :: rest => since? d rest

/-- The text of document `d` after the calls since its creation: the latest that
was set, or the empty text, unless it was destroyed. -/
def textAfter? (d : Nat) (later : List Call) : Option Bytes :=
  if later.any (Call.destroys d) then none
  else some ((later.reverse.findSome? (Call.text? d)).getD [])

/-- The text of the document behind a handle; there is none behind a null pointer
or before the document's creation. -/
def textBehind? (calls : List Call) (handle : Option Nat) : Option Bytes :=
  handle.bind fun d => (since? d calls).bind (textAfter? d)

/-- The built-in locale with the latest name that was given; `none` stands for default text. -/
def localeInForce? (calls : List Call) : Option String :=
  (calls.reverse.findSome? Call.localeName?).bind fun name =>
    Catalog.builtinLocales.find? fun locale => Bytes.ofString locale = name

end Host

theorem find?_ofString (name : String) :
    (Catalog.builtinLocales.find? fun locale => Bytes.ofString locale = Bytes.ofString name) =
      if name ∈ Catalog.builtinLocales then some name else none := by
  by_cases h : name ∈ Catalog.builtinLocales
  · rw [if_pos h]
    cases hf : Catalog.builtinLocales.find? fun locale =>
        Bytes.ofString locale = Bytes.ofString name with
    | none => exact absurd (decide_eq_true rfl) (List.find?_eq_none.mp hf name h)
    | some locale =>
      have he := List.find?_some hf
      exact congrArg some (Bytes.ofString_inj (of_decide_eq_true he))
  · rw [if_neg h]
    apply List.find?_eq_none.mpr
    intro locale hl he
    exact h (Bytes.ofString_inj (of_decide_eq_true he) ▸ hl)

/-- A search for one name finds the built-in locale with that name. -/
theorem Translator.setBest_cases {t : Translator} (ht : t.catalog = Catalog.builtin)
    (name : String) :
    (name ∈ Catalog.builtinLocales ∧ (t.setBest [name]).result = true ∧
      (t.setBest [name]).state.Speaks (some name)) ∨
    (name ∉ Catalog.builtinLocales ∧ (t.setBest [name]).result = false ∧
      (t.setBest [name]).state.catalog = Catalog.builtin) := by
  obtain ⟨catalog, active⟩ := t
  obtain rfl : catalog = Catalog.builtin := ht
  rw [setBest]
  by_cases hu : untranslated.contains name = true
  · rw [if_pos hu]
    refine .inr ⟨fun hmem => ?_, rfl, rfl⟩
    -- the names that mean default text are not those of built-in locales
    have hdisjoint : ∀ locale ∈ Catalog.builtinLocales, untranslated.contains locale = false := by
      decide
    rw [hdisjoint name hmem] at hu
    cases hu
  · rw [if_neg hu]
    split
    next index hf =>
      obtain ⟨hlt, hname, -⟩ := List.idxOf?_eq_some_iff.mp hf
      have hname : Catalog.builtin.locales.names[index]? = some name :=
        List.getElem?_eq_some_iff.mpr ⟨hlt, hname⟩
      have hlt : index < 5 := Nat.lt_of_lt_of_eq hlt Catalog.localeCount_builtin
      refine .inl ⟨?_, rfl, rfl, Nat.lt_succ_of_lt hlt, hname⟩
      rw [Catalog.locales_builtin] at hname
      exact List.mem_of_getElem? hname
    next hf =>
      have hnone : name ∉ Catalog.builtin.locales.names := List.idxOf?_eq_none_iff.mp hf
      rw [Catalog.locales_builtin] at hnone
      exact .inr ⟨hnone, rfl, rfl⟩

/-- A name that is given selects the built-in locale with that name, or default text. -/
theorem Host.speaks_setLocale {h : Host} {locale : Option String} (hs : h.translator.Speaks locale)
    (bytes : Bytes) : (h.setLocale (some bytes)).state.translator.Speaks
      (Catalog.builtinLocales.find? fun locale => Bytes.ofString locale = bytes.untilNul) := by
  obtain ⟨t, documents⟩ := h
  have ht : t.catalog = Catalog.builtin := hs.catalog_eq
  have hdefault : ∀ t : Translator, t.catalog = Catalog.builtin →
      (t.useDefault ()).state.Speaks none := by
    rintro ⟨catalog, active⟩ rfl
    exact Translator.speaks_default
  cases hd : Utf8.decode? bytes.untilNul with
  | none =>
    -- an ill-formed name is no locale's, as the names of locales are texts
    have hnone : (Catalog.builtinLocales.find? fun locale =>
        Bytes.ofString locale = bytes.untilNul) = none := by
      apply List.find?_eq_none.mpr
      intro locale _ he
      rw [← of_decide_eq_true he, Utf8.decode?_ofString] at hd
      cases hd
    rw [hnone]
    simp only [setLocale, hd]
    exact hdefault t ht
  | some name =>
    rw [Utf8.decode?_eq_some_iff.mp hd, find?_ofString]
    simp only [setLocale, hd]
    rcases Translator.setBest_cases ht name with ⟨hmem, hresult, hspeaks⟩ | ⟨hmem, hresult, hcat⟩
    · rw [if_pos hmem, if_pos hresult]
      exact hspeaks
    · rw [if_neg hmem, if_neg (by rw [hresult]; exact Bool.false_ne_true)]
      exact hdefault _ hcat

/-! ## The records of a document -/

namespace Host

/-- A diagnostic as a record. -/
def record (x : Diagnostic) : Record :=
  ⟨some (messageOf x), x.kind.code, x.span.first, x.span.stop⟩

namespace Document

/-- The records of a document have their messages in it. -/
def Fits (d : Document) : Prop :=
  ∀ r ∈ d.records, ∀ i ∈ r.message, i < d.messages.size

variable {d : Document}

theorem fits_keep (h : d.Fits) (x : Diagnostic) : (d.keep x).Fits := by
  intro r hr i hi
  have hsize : (d.keep x).messages.size = d.messages.size + 1 := Array.size_push _
  rw [hsize]
  rcases Array.mem_push.mp hr with hr | rfl
  · exact Nat.lt_succ_of_lt (h r hr i hi)
  · cases hi
    exact Nat.lt_succ_self _

/-- A new message stands behind the others, so it is the new record's and no other's. -/
theorem shown_keep (h : d.Fits) (x : Diagnostic) : (d.keep x).shown = d.shown ++ [record x] := by
  unfold shown
  dsimp only [keep]
  rw [Array.toList_push, List.map_append, List.map_singleton, Option.bind_some,
    Array.getElem?_push_size]
  refine congrArg (· ++ [record x]) (List.map_congr_left fun r hr => ?_)
  cases hi : r.message with
  | none => rfl
  | some i =>
    have hlt := h r (Array.mem_toList_iff.mp hr) i hi
    rw [Option.bind_some, Option.bind_some, Array.getElem?_push_lt hlt, Array.getElem?_eq_getElem hlt]

theorem shown_foldl_keep (h : d.Fits) (xs : List Diagnostic) :
    (xs.foldl keep d).shown = d.shown ++ xs.map record := by
  induction xs generalizing d with
  | nil => exact (List.append_nil _).symm
  | cons x xs ih =>
    rw [List.foldl_cons, ih (fits_keep h x), shown_keep h, List.append_assoc, List.map_cons,
      List.singleton_append]

theorem session_foldl_keep (xs : List Diagnostic) (d : Document) :
    (xs.foldl keep d).session = d.session := by
  induction xs generalizing d with
  | nil => rfl
  | cons x xs ih => exact ih (d.keep x)

theorem shown_close (d : Document) : d.close.shown = d.shown ++ [Host.sentinel] := by
  simp [shown, close, Kept.sentinel, Host.sentinel]

/-- What a lint of a document gives, and what it leaves of it. -/
theorem lint_spec (d : Document) (t : Translator) :
    (d.lint t).state.session = (d.session.lint t).state ∧
    (d.lint t).result =
      match (d.session.lint t).result with
      | .ok diagnostics => diagnostics.map record ++ [Host.sentinel]
      | .error _ => [Host.sentinel] := by
  unfold lint
  dsimp only
  split
  next diagnostics hresult =>
    refine ⟨session_foldl_keep diagnostics _, ?_⟩
    -- the records were cleared, so only those of this lint are shown
    rw [hresult]
    dsimp only
    rw [shown_close, shown_foldl_keep fun r hr => absurd hr (Array.not_mem_empty r)]
    rfl
  next hresult =>
    rw [hresult]
    exact ⟨rfl, shown_close _⟩
  next hresult =>
    rw [hresult]
    exact ⟨rfl, rfl⟩

/-- A lint that does not break off gives the records that the document keeps. -/
theorem shown_lint {t : Translator}
    (h : ∀ id, (d.session.lint t).result ≠ .error (.unknownMessage id)) :
    (d.lint t).state.shown = (d.lint t).result := by
  unfold lint
  dsimp only
  split
  next => rfl
  next => rfl
  next hresult => exact absurd hresult (h _)

end Document

/-! ## The documents -/

/-- The engine and the text of document `d`, if it is live. -/
def view? (h : Host) (d : Nat) : Option (Engine × Bytes) :=
  ((h.documents[d]?).join).map fun doc => (doc.session.engine, doc.session.text)

/-- How a call changes the view of document `d`; a document that it creates gets number `count`. -/
def Call.change (c : Call) (count d : Nat) (view : Option (Engine × Bytes)) :
    Option (Engine × Bytes) :=
  if c.isCreate ∧ d = count then some (.lexer, [])
  else if c.destroys d then none
  else view.map fun (engine, text) => (engine, (c.text? d).getD text)

section
variable {h : Host} {n : Nat}

theorem live?_some (h : Host) (n : Nat) :
    h.live? (some n) = ((h.documents[n]?).join).map (n, ·) := rfl

/-- A handle that stands for no document makes a call do nothing. -/
theorem state_of_not_live (hlive : (h.documents[n]?).join = none) :
    (h.destroy (some n)).state = h ∧
    (∀ source length, (h.setText (some n) source length).state = h) ∧
    h.lint (some n) = ⟨[sentinel], h, []⟩ := by
  refine ⟨?_, fun source length => ?_, ?_⟩
  · rw [destroy, live?_some, hlive]
    rfl
  · rw [setText, live?_some, hlive]
    rfl
  · rw [lint, live?_some, hlive]
    rfl

variable {doc : Document}

theorem state_destroy (hlive : (h.documents[n]?).join = some doc) :
    (h.destroy (some n)).state = h.put n none := by
  rw [destroy, live?_some, hlive]
  rfl

theorem state_setText (hlive : (h.documents[n]?).join = some doc) (source : Option Bytes)
    (length : Nat) :
    (h.setText (some n) source length).state =
      match Call.effective? source length with
      | some text => h.put n (some (doc.setText text))
      | none => h := by
  unfold setText Call.effective?
  rw [live?_some, hlive]
  cases source with
  | some bytes => rfl
  | none =>
    by_cases hlen : length = 0
    · simp only [Option.map_some, if_pos hlen]
    · simp only [Option.map_some, if_neg hlen]

theorem lint_of_live (hlive : (h.documents[n]?).join = some doc) :
    h.lint (some n) = (doc.lint h.translator).within fun doc => h.put n (some doc) := by
  rw [lint, live?_some, hlive]
  rfl

theorem view?_of_not_live (hlive : (h.documents[n]?).join = none) : h.view? n = none := by
  rw [view?, hlive]
  rfl

theorem view?_put (hlive : (h.documents[n]?).join = some doc) (doc' : Option Document) (d : Nat) :
    (h.put n doc').view? d =
      if n = d then doc'.map fun doc => (doc.session.engine, doc.session.text) else h.view? d := by
  have hn : n < h.documents.length :=
    (List.getElem?_eq_some_iff.mp (Option.join_eq_some_iff.mp hlive)).1
  unfold view? put
  rw [List.getElem?_set]
  by_cases hd : n = d
  · rw [if_pos hd, if_pos hd, if_pos hn]
    rfl
  · rw [if_neg hd, if_neg hd]

end

theorem view?_create (h : Host) (d : Nat) :
    h.create.state.view? d =
      if d = h.documents.length then some (.lexer, []) else h.view? d := by
  unfold create view?
  by_cases hd : d = h.documents.length
  · rw [if_pos hd, hd, List.getElem?_concat_length]
    rfl
  · rw [if_neg hd]
    rcases Nat.lt_or_gt_of_ne hd with hlt | hgt
    · rw [List.getElem?_append_left hlt]
    · have hlen : (h.documents ++ [some (Document.ofEngine .lexer)]).length ≤ d := by
        rw [List.length_append]
        exact hgt
      rw [List.getElem?_eq_none hlen, List.getElem?_eq_none (Nat.le_of_lt hgt)]

theorem view?_destroy (h : Host) (handle : Option Nat) (d : Nat) :
    (h.destroy handle).state.view? d =
      if (Call.destroy handle).destroys d then none else h.view? d := by
  cases handle with
  | none => rfl
  | some n =>
    have hdestroys : (Call.destroy (some n)).destroys d = true ↔ n = d := beq_iff_eq
    simp only [hdestroys]
    cases hlive : (h.documents[n]?).join with
    | none =>
      rw [(state_of_not_live hlive).1]
      by_cases hd : n = d
      · rw [if_pos hd, ← hd, view?_of_not_live hlive]
      · rw [if_neg hd]
    | some doc => rw [state_destroy hlive, view?_put hlive, Option.map_none]

theorem view?_setText (h : Host) (handle : Option Nat) (source : Option Bytes) (length d : Nat) :
    (h.setText handle source length).state.view? d =
      (h.view? d).map fun (engine, text) =>
        (engine, ((Call.setText handle source length).text? d).getD text) := by
  cases handle with
  | none => exact Option.map_id'.symm
  | some n =>
    rw [Call.text?]
    cases hlive : (h.documents[n]?).join with
    | none =>
      rw [(state_of_not_live hlive).2.1]
      by_cases hd : n = d
      · rw [← hd, view?_of_not_live hlive]
        rfl
      · rw [if_neg hd]
        exact Option.map_id'.symm
    | some doc =>
      rw [state_setText hlive]
      cases Call.effective? source length with
      | none =>
        rw [ite_self]
        exact Option.map_id'.symm
      | some text =>
        refine (view?_put hlive _ _).trans ?_
        by_cases hd : n = d
        · rw [if_pos hd, if_pos hd, ← hd, view?, hlive]
          rfl
        · rw [if_neg hd, if_neg hd]
          exact Option.map_id'.symm

theorem view?_lint (h : Host) (handle : Option Nat) (d : Nat) :
    (h.lint handle).state.view? d = h.view? d := by
  cases handle with
  | none => rfl
  | some n =>
    cases hlive : (h.documents[n]?).join with
    | none => rw [(state_of_not_live hlive).2.2]
    | some doc =>
      rw [lint_of_live hlive]
      refine (view?_put hlive _ _).trans ?_
      by_cases hd : n = d
      · obtain ⟨hengine, htext⟩ := doc.session.lint_keeps h.translator
        rw [if_pos hd, ← hd, view?, hlive, Option.map_some, Option.map_some,
          (doc.lint_spec h.translator).1, hengine, htext]
      · rw [if_neg hd]

theorem documents_setLocale (h : Host) (name : Option Bytes) :
    (h.setLocale name).state.documents = h.documents := by
  unfold setLocale
  dsimp only
  split
  next => rfl
  next =>
    split
    next => rfl
    next => split <;> rfl

theorem Call.change_of_isCreate {c : Call} (hc : c.isCreate = false) (count d : Nat)
    (view : Option (Engine × Bytes)) : c.change count d view =
      if c.destroys d then none
      else view.map fun (engine, text) => (engine, (c.text? d).getD text) := by
  rw [change, if_neg]
  rw [hc]
  exact fun h => Bool.false_ne_true h.1

theorem Call.change_eq_self {c : Call} {d : Nat} (hc : c.isCreate = false)
    (hd : c.destroys d = false) (ht : c.text? d = none) (count : Nat)
    (view : Option (Engine × Bytes)) : c.change count d view = view := by
  rw [change_of_isCreate hc, hd, ht]
  exact Option.map_id'

/-- A call changes every document in the host as it changes its view. -/
theorem view?_call (h : Host) (c : Call) (d : Nat) :
    (h.call c).state.view? d = c.change h.documents.length d (h.view? d) := by
  cases c with
  | create =>
    refine (h.view?_create d).trans ?_
    unfold Call.change
    by_cases hd : d = h.documents.length
    · rw [if_pos hd, if_pos ⟨rfl, hd⟩]
    · rw [if_neg hd, if_neg fun hc => hd hc.2]
      exact Option.map_id'.symm
  | destroy handle =>
    refine (h.view?_destroy handle d).trans ?_
    rw [Call.change_of_isCreate rfl]
    by_cases hd : (Call.destroy handle).destroys d = true
    · rw [if_pos hd, if_pos hd]
    · rw [if_neg hd, if_neg hd]
      exact Option.map_id'.symm
  | setText handle source length =>
    rw [Call.change_of_isCreate rfl]
    exact h.view?_setText handle source length d
  | lint handle =>
    exact (h.view?_lint handle d).trans (Call.change_eq_self rfl rfl rfl _ _).symm
  | setLocale handle name =>
    have hview : (h.setLocale name).state.view? d = h.view? d := by
      rw [view?, documents_setLocale]
      rfl
    exact hview.trans (Call.change_eq_self rfl rfl rfl _ _).symm
  | localeNames => exact (Call.change_eq_self rfl rfl rfl _ _).symm

/-! ## The history -/

theorem Call.eq_create_of_isCreate {c : Call} (h : c.isCreate = true) : c = .create := by
  cases c with
  | create => rfl
  | _ => cases h

theorem Call.exists_of_localeName? {c : Call} {name : Bytes} (h : c.localeName? = some name) :
    ∃ handle bytes, c = .setLocale handle (some bytes) ∧ bytes.untilNul = name := by
  cases c with
  | setLocale handle given =>
    obtain ⟨bytes, rfl, hname⟩ := Option.map_eq_some_iff.mp h
    exact ⟨handle, bytes, rfl, hname⟩
  | _ => cases h

theorem since?_cons_of_neg {c : Call} (hc : ¬ c.isCreate = true) (d : Nat) (rest : List Call) :
    since? d (c :: rest) = since? d rest := by
  rw [since?]
  · rintro - rfl
    exact hc rfl
  · rintro n - rfl
    exact hc rfl

/-- A document was created, so it is among those that were. -/
theorem lt_of_since? {d : Nat} {calls later : List Call} (h : since? d calls = some later) :
    d < calls.countP Call.isCreate := by
  induction calls generalizing d with
  | nil => cases h
  | cons c rest ih =>
    by_cases hc : c.isCreate = true
    · rw [List.countP_cons_of_pos hc]
      obtain rfl := Call.eq_create_of_isCreate hc
      cases d with
      | zero => exact Nat.succ_pos _
      | succ d => exact Nat.succ_lt_succ (ih h)
    · rw [since?_cons_of_neg hc] at h
      rw [List.countP_cons_of_neg hc]
      exact ih h

theorem since?_append (d : Nat) (calls : List Call) (c : Call) :
    since? d (calls ++ [c]) =
      match since? d calls with
      | some later => some (later ++ [c])
      | none => if c.isCreate ∧ d = calls.countP Call.isCreate then some [] else none := by
  induction calls generalizing d with
  | nil =>
    show since? d [c] = if c.isCreate ∧ d = 0 then some [] else none
    by_cases hc : c.isCreate = true
    · obtain rfl := Call.eq_create_of_isCreate hc
      cases d with
      | zero => rfl
      | succ d => rfl
    · rw [since?_cons_of_neg hc, if_neg fun h => hc h.1]
      rfl
  | cons b rest ih =>
    by_cases hb : b.isCreate = true
    · rw [List.countP_cons_of_pos hb]
      obtain rfl := Call.eq_create_of_isCreate hb
      cases d with
      | zero => rfl
      | succ d =>
        have hd : d + 1 = rest.countP Call.isCreate + 1 ↔ d = rest.countP Call.isCreate :=
          Nat.add_right_cancel_iff
        simp only [hd]
        exact ih d
    · rw [List.cons_append, since?_cons_of_neg hb, since?_cons_of_neg hb,
        List.countP_cons_of_neg hb, ih]

theorem textAfter?_append (d : Nat) (later : List Call) (c : Call) :
    textAfter? d (later ++ [c]) =
      if c.destroys d then none
      else (textAfter? d later).map fun text => (c.text? d).getD text := by
  have hany : (later ++ [c]).any (Call.destroys d) = (later.any (Call.destroys d) || c.destroys d) := by
    rw [List.any_append, List.any_cons, List.any_nil, Bool.or_false]
  unfold textAfter?
  rw [hany, List.reverse_append, List.reverse_singleton, List.singleton_append,
    List.findSome?_cons]
  cases hc : c.destroys d with
  | true => rw [Bool.or_true, if_pos rfl, if_pos rfl]
  | false =>
    rw [Bool.or_false, if_neg Bool.false_ne_true]
    cases later.any (Call.destroys d) with
    | true => rfl
    | false => cases c.text? d <;> rfl

/-- A call changes the text behind every number as it changes its view. -/
theorem textBehind?_append (calls : List Call) (c : Call) (d : Nat) :
    (textBehind? (calls ++ [c]) (some d)).map (Prod.mk .lexer) =
      c.change (calls.countP Call.isCreate) d
        ((textBehind? calls (some d)).map (Prod.mk .lexer)) := by
  show ((since? d (calls ++ [c])).bind (textAfter? d)).map _ =
    c.change _ d (((since? d calls).bind (textAfter? d)).map _)
  rw [since?_append, Call.change]
  cases hs : since? d calls with
  | none =>
    by_cases hnew : c.isCreate ∧ d = calls.countP Call.isCreate
    · simp only [if_pos hnew]
      rfl
    · simp only [if_neg hnew]
      cases c.destroys d <;> rfl
  | some later =>
    -- a document is created once: the next one to be created has a number beyond `d`
    have hold : ¬ (c.isCreate ∧ d = calls.countP Call.isCreate) := by
      rintro ⟨-, rfl⟩
      exact absurd (lt_of_since? hs) (Nat.lt_irrefl _)
    simp only [if_neg hold, Option.bind_some, textAfter?_append]
    cases c.destroys d with
    | true => rfl
    | false => cases textAfter? d later <;> rfl

example : textBehind? [.create, .setText (some 0) (some [0x40, 0x41]) 1,
    .setText (some 0) none 3, .destroy (some 1), .create] (some 0) = some [0x40] := by
  decide

theorem localeInForce?_append (calls : List Call) (c : Call) :
    localeInForce? (calls ++ [c]) =
      match c.localeName? with
      | some name => Catalog.builtinLocales.find? fun locale => Bytes.ofString locale = name
      | none => localeInForce? calls := by
  unfold localeInForce?
  rw [List.reverse_append, List.reverse_singleton, List.singleton_append, List.findSome?_cons]
  cases c.localeName? <;> rfl

/-- The host is as the calls say. -/
structure Reflects (calls : List Call) (h : Host) : Prop where
  speaks : h.translator.Speaks (localeInForce? calls)
  length_eq : h.documents.length = calls.countP Call.isCreate
  view_eq : ∀ d, h.view? d = (textBehind? calls (some d)).map (Prod.mk .lexer)

theorem reflects_initial : Reflects [] initial :=
  ⟨Translator.speaks_default, rfl, fun _ => rfl⟩

/-- A call that neither creates a document nor names a locale changes at most the document
that it is about. -/
theorem state_call_cases (h : Host) {c : Call} (hc : c.isCreate = false)
    (hl : c.localeName? = none) :
    (h.call c).state = h ∨
      ∃ n doc, c.target? = some n ∧ (h.call c).state = h.put n doc := by
  match c with
  | .create => cases hc
  | .destroy none => exact .inl rfl
  | .setText none source length => exact .inl rfl
  | .lint none => exact .inl rfl
  | .setLocale handle none => exact .inl rfl
  | .setLocale handle (some name) => cases hl
  | .localeNames => exact .inl rfl
  | .destroy (some n) =>
    cases hlive : (h.documents[n]?).join with
    | none => exact .inl (state_of_not_live hlive).1
    | some doc => exact .inr ⟨n, _, rfl, state_destroy hlive⟩
  | .setText (some n) source length =>
    cases hlive : (h.documents[n]?).join with
    | none => exact .inl ((state_of_not_live hlive).2.1 source length)
    | some doc =>
      have hstate := state_setText hlive source length
      cases he : Call.effective? source length with
      | none =>
        rw [he] at hstate
        exact .inl hstate
      | some text =>
        rw [he] at hstate
        exact .inr ⟨n, _, rfl, hstate⟩
  | .lint (some n) =>
    cases hlive : (h.documents[n]?).join with
    | none => exact .inl (congrArg Step.state (state_of_not_live hlive).2.2)
    | some doc => exact .inr ⟨n, _, rfl, congrArg Step.state (lint_of_live hlive)⟩

theorem translator_call (h : Host) {c : Call} (hc : c.localeName? = none) :
    (h.call c).state.translator = h.translator := by
  cases hcreate : c.isCreate with
  | true =>
    obtain rfl := Call.eq_create_of_isCreate hcreate
    rfl
  | false =>
    rcases h.state_call_cases hcreate hc with hs | ⟨n, doc, -, hs⟩
    · rw [hs]
    · rw [hs]
      rfl

theorem length_call (h : Host) (c : Call) :
    (h.call c).state.documents.length = h.documents.length + [c].countP Call.isCreate := by
  cases hcreate : c.isCreate with
  | true =>
    obtain rfl := Call.eq_create_of_isCreate hcreate
    exact List.length_append
  | false =>
    rw [List.countP_cons_of_neg (by rw [hcreate]; exact Bool.false_ne_true)]
    cases hl : c.localeName? with
    | some name =>
      obtain ⟨handle, bytes, rfl, -⟩ := Call.exists_of_localeName? hl
      exact congrArg List.length (h.documents_setLocale (some bytes))
    | none =>
      rcases h.state_call_cases hcreate hl with hs | ⟨n, doc, -, hs⟩
      · rw [hs]
        rfl
      · rw [hs]
        exact List.length_set

/-- A call leaves every document alone but the one that it is about. -/
theorem documents_call_of_ne (h : Host) {c : Call} {n : Nat} (hn : n < h.documents.length)
    (hc : c.target? ≠ some n) : (h.call c).state.documents[n]? = h.documents[n]? := by
  cases hcreate : c.isCreate with
  | true =>
    obtain rfl := Call.eq_create_of_isCreate hcreate
    exact List.getElem?_append_left hn
  | false =>
    cases hl : c.localeName? with
    | some name =>
      obtain ⟨handle, bytes, rfl, -⟩ := Call.exists_of_localeName? hl
      exact congrArg (·[n]?) (h.documents_setLocale (some bytes))
    | none =>
      rcases h.state_call_cases hcreate hl with hs | ⟨m, doc, htarget, hs⟩
      · rw [hs]
      · have hne : m ≠ n := by
          rintro rfl
          exact hc htarget
        rw [hs]
        exact List.getElem?_set_ne hne

theorem Reflects.call {calls : List Call} {h : Host} (hr : Reflects calls h) (c : Call) :
    Reflects (calls ++ [c]) (h.call c).state := by
  refine ⟨?_, ?_, fun d => ?_⟩
  · rw [localeInForce?_append]
    cases hc : c.localeName? with
    | none =>
      rw [translator_call h hc]
      exact hr.speaks
    | some name =>
      obtain ⟨handle, bytes, rfl, rfl⟩ := Call.exists_of_localeName? hc
      exact speaks_setLocale hr.speaks bytes
  · rw [length_call, List.countP_append, hr.length_eq]
  · rw [view?_call, textBehind?_append, hr.view_eq, hr.length_eq]

/-- The host after some calls. -/
def after (h : Host) (calls : List Call) : Host :=
  calls.foldl (fun h c => (h.call c).state) h

theorem documents_after_of_ne {h : Host} {calls : List Call} {n : Nat}
    (hn : n < h.documents.length) (hc : ∀ c ∈ calls, c.target? ≠ some n) :
    (h.after calls).documents[n]? = h.documents[n]? := by
  induction calls generalizing h with
  | nil => rfl
  | cons c calls ih =>
    obtain ⟨hfirst, hrest⟩ := List.forall_mem_cons.mp hc
    have hlt : n < (h.call c).state.documents.length := by
      rw [length_call]
      omega
    exact (ih hlt hrest).trans (h.documents_call_of_ne hn hfirst)

theorem Reflects.after {earlier : List Call} {h : Host} (hr : Reflects earlier h)
    (calls : List Call) : Reflects (earlier ++ calls) (h.after calls) := by
  induction calls generalizing earlier h with
  | nil =>
    rw [List.append_nil]
    exact hr
  | cons c calls ih =>
    have hrest := ih (hr.call c)
    rwa [List.append_assoc] at hrest

theorem getElem?_run (h : Host) (calls later : List Call) (c : Call) :
    (h.run (calls ++ c :: later))[calls.length]? = some ((h.after calls).call c) := by
  induction calls generalizing h with
  | nil => rfl
  | cons b calls ih => exact ih (h.call b).state

/-! ## Top theorems -/

/-- The records of a lint stay with their document until a call sets its text, lints it again or
destroys it. -/
theorem shown_after_lint {calls later : List Call} {n : Nat} {text : Bytes}
    (htext : textBehind? calls (some n) = some text) (hlater : ∀ c ∈ later, c.target? ≠ some n) :
    ∃ doc, (initial.after (calls ++ .lint (some n) :: later)).documents[n]? = some (some doc) ∧
      doc.shown = ((initial.after calls).lint (some n)).result := by
  have hr : Reflects calls (initial.after calls) := reflects_initial.after calls
  have hafter : initial.after (calls ++ .lint (some n) :: later) =
      (((initial.after calls).lint (some n)).state).after later := List.foldl_append
  have hview := hr.view_eq n
  rw [hafter]
  generalize initial.after calls = h at hr hview
  rw [htext] at hview
  obtain ⟨doc, hlive, hdoc⟩ := Option.map_eq_some_iff.mp hview
  obtain ⟨hengine, -⟩ := Prod.mk.inj hdoc
  have hn : n < h.documents.length :=
    (List.getElem?_eq_some_iff.mp (Option.join_eq_some_iff.mp hlive)).1
  have hput : (h.lint (some n)).state.documents[n]? =
      some (some (doc.lint h.translator).state) := by
    rw [lint_of_live hlive]
    exact List.getElem?_set_self hn
  have hlt := (List.getElem?_eq_some_iff.mp hput).1
  refine ⟨_, (documents_after_of_ne hlt hlater).trans hput, ?_⟩
  rw [lint_of_live hlive]
  refine Document.shown_lint fun id => ?_
  cases ha : Lexer.analyze doc.session.text with
  | ok findings =>
    rw [doc.session.lint_of_analyze hengine hr.speaks ha]
    exact nofun
  | error fault =>
    rw [doc.session.lint_of_analyze_error hengine ha]
    exact nofun

/-- Documents are numbered in the order of their creation. -/
theorem create_reply (calls later : List Call) :
    ((initial.run (calls ++ .create :: later))[calls.length]?).map (·.result) =
      some (.number (calls.countP Call.isCreate)) := by
  rw [getElem?_run]
  exact congrArg (some ∘ Reply.number) (reflects_initial.after calls).length_eq

end Host

end ScriptLint
