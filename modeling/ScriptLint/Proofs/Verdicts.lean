import Mathlib.Data.List.Forall2

/-! What a reader accepts, and which fault it names.

`Judges f Good Fault` says both at once: `f` gives a value exactly when `Good`
holds, and fails with `e` exactly when `Fault e` holds.  It is enough that either
decides the outcome and that one of them holds (`judges_of_total`).  A reader
that goes through a list stops at its first fault (`Judges.mapM`). -/

namespace ScriptLint

/-- `f` succeeds exactly when `Good` holds, and fails with `e` exactly when `Fault e` holds. -/
def Judges {ε α : Type} (f : Except ε α) (Good : Prop) (Fault : ε → Prop) : Prop :=
  ((∃ a, f = .ok a) ↔ Good) ∧ ∀ e, f = .error e ↔ Fault e

section
variable {ε α β : Type} {f : Except ε α} {Good : Prop} {Fault : ε → Prop}

theorem judges_of_total (hgood : Good → ∃ a, f = .ok a) (hfault : ∀ e, Fault e → f = .error e)
    (htotal : Good ∨ ∃ e, Fault e) : Judges f Good Fault := by
  constructor
  · constructor
    · rintro ⟨a, ha⟩
      rcases htotal with h | ⟨e, he⟩
      · exact h
      · rw [hfault e he] at ha
        cases ha
    · exact hgood
  · intro e
    constructor
    · intro he
      rcases htotal with h | ⟨e', he'⟩
      · obtain ⟨a, ha⟩ := hgood h
        rw [ha] at he
        cases he
      · rw [hfault e' he'] at he
        cases he
        exact he'
    · exact hfault e

theorem Judges.good_or_fault (h : Judges f Good Fault) : Good ∨ ∃ e, Fault e := by
  cases hf : f with
  | ok a => exact .inl (h.1.mp ⟨a, hf⟩)
  | error e => exact .inr ⟨e, (h.2 e).mp hf⟩

theorem Judges.congr {Good' : Prop} {Fault' : ε → Prop} (h : Judges f Good Fault)
    (hgood : Good' ↔ Good) (hfault : ∀ e, Fault' e ↔ Fault e) : Judges f Good' Fault' :=
  ⟨h.1.trans hgood.symm, fun e => (h.2 e).trans (hfault e).symm⟩

/-- A reader `g` that goes on with `k` when another one accepts: the faults of `k` come second. -/
theorem Judges.andThen {g : Except ε β} {k : α → Except ε β} {Good' : Prop} {Fault' : ε → Prop}
    (h : Judges f Good Fault) (hk : ∀ a, f = .ok a → Judges (k a) Good' Fault')
    (herror : ∀ e, f = .error e → g = .error e) (hok : ∀ a, f = .ok a → g = k a) :
    Judges g (Good ∧ Good') fun e => Fault e ∨ Good ∧ Fault' e := by
  refine judges_of_total ?_ ?_ ?_
  · rintro ⟨hgood, hgood'⟩
    obtain ⟨a, ha⟩ := h.1.mpr hgood
    rw [hok a ha]
    exact (hk a ha).1.mpr hgood'
  · rintro e (he | ⟨hgood, he⟩)
    · exact herror e ((h.2 e).mpr he)
    · obtain ⟨a, ha⟩ := h.1.mpr hgood
      rw [hok a ha]
      exact ((hk a ha).2 e).mpr he
  · cases hf : f with
    | error e => exact .inr ⟨e, .inl ((h.2 e).mp hf)⟩
    | ok a =>
      have hgood := h.1.mp ⟨a, hf⟩
      rcases (hk a hf).good_or_fault with hgood' | ⟨e, he⟩
      · exact .inl ⟨hgood, hgood'⟩
      · exact .inr ⟨e, .inr ⟨hgood, he⟩⟩

theorem Judges.map (h : Judges f Good Fault) (g : α → β) : Judges (f.map g) Good Fault := by
  refine judges_of_total ?_ ?_ h.good_or_fault
  · intro hg
    obtain ⟨a, rfl⟩ := h.1.mpr hg
    exact ⟨g a, rfl⟩
  · intro e he
    obtain rfl := (h.2 e).mpr he
    rfl

/-- What becomes of a value afterwards does not matter to the verdict. -/
theorem Judges.of_map {g : α → β} (h : Judges (f.map g) Good Fault) : Judges f Good Fault := by
  cases f with
  | ok a =>
    have hgood := h.1.mp ⟨g a, rfl⟩
    exact judges_of_total (fun _ => ⟨a, rfl⟩) (fun e he => nomatch (h.2 e).mpr he) (.inl hgood)
  | error e =>
    have hfault := (h.2 e).mp rfl
    refine judges_of_total (fun hgood => ?_) (fun e' he' => ?_) (.inr ⟨e, hfault⟩)
    · obtain ⟨b, hb⟩ := h.1.mpr hgood
      cases hb
    · cases (h.2 e').mpr he'
      rfl

end

/-! ## Lists -/

section
variable {ε α β : Type} {f : α → Except ε β}

theorem mapM_eq_ok_iff {l : List α} {out : List β} :
    l.mapM f = .ok out ↔ List.Forall₂ (fun x y => f x = .ok y) l out := by
  induction l generalizing out with
  | nil =>
    rw [List.mapM_nil, List.forall₂_nil_left_iff]
    exact ⟨fun h => (Except.ok.inj h).symm, fun h => congrArg _ h.symm⟩
  | cons x l ih =>
    rw [List.mapM_cons, List.forall₂_cons_left_iff]
    constructor
    · intro h
      cases hx : f x with
      | error e =>
        rw [hx] at h
        cases h
      | ok y =>
        cases hl : l.mapM f with
        | error e =>
          rw [hx, hl] at h
          cases h
        | ok ys =>
          rw [hx, hl] at h
          cases h
          exact ⟨y, ys, rfl, ih.mp hl, rfl⟩
    · rintro ⟨y, ys, hx, hl, rfl⟩
      rw [hx, ih.mpr hl]
      rfl

/-- The first fault of a list, in the order of its items. -/
def FirstOf (Good : α → Prop) (Fault : α → ε → Prop) (l : List α) (e : ε) : Prop :=
  ∃ before x after, l = before ++ x :: after ∧ (∀ y ∈ before, Good y) ∧ Fault x e

theorem firstOf_range_iff {Good : Nat → Prop} {Fault : Nat → ε → Prop} {n : Nat} {e : ε} :
    FirstOf Good Fault (List.range n) e ↔ ∃ m, m < n ∧ (∀ k, k < m → Good k) ∧ Fault m e := by
  constructor
  · rintro ⟨before, x, after, hl, hgood, he⟩
    have hlt : before.length < n := by
      have hlen := congrArg List.length hl
      rw [List.length_range, List.length_append, List.length_cons] at hlen
      omega
    have hbefore : List.range before.length = before := by
      have htake := congrArg (List.take before.length) hl
      rw [List.take_left, List.take_range, Nat.min_eq_left (Nat.le_of_lt hlt)] at htake
      exact htake
    have hx : before.length = x := by
      have hget := congrArg (fun l => l[before.length]?) hl
      simpa [List.getElem?_range hlt] using hget
    refine ⟨before.length, hlt, fun k hk => hgood k ?_, hx ▸ he⟩
    rw [← hbefore]
    exact List.mem_range.mpr hk
  · rintro ⟨m, hm, hgood, he⟩
    refine ⟨List.range m, m, (List.range n).drop (m + 1), ?_,
      fun k hk => hgood k (List.mem_range.mp hk), he⟩
    have hlen : m < (List.range n).length := by rwa [List.length_range]
    have hdrop : (List.range n).drop m = m :: (List.range n).drop (m + 1) := by
      rw [List.drop_eq_getElem_cons hlen, List.getElem_range]
    rw [← hdrop, ← Nat.min_eq_left (Nat.le_of_lt hm), ← List.take_range,
      Nat.min_eq_left (Nat.le_of_lt hm), List.take_append_drop]

/-- A reader that goes through a list accepts it when it accepts every item, and
fails as it does on the first item that it does not accept. -/
theorem Judges.mapM {Good : α → Prop} {Fault : α → ε → Prop} {l : List α}
    (h : ∀ x ∈ l, Judges (f x) (Good x) (Fault x)) :
    Judges (l.mapM f) (∀ x ∈ l, Good x) (FirstOf Good Fault l) := by
  induction l with
  | nil =>
    refine judges_of_total (fun _ => ⟨[], rfl⟩) ?_ (.inl nofun)
    rintro e ⟨before, x, after, hl, -⟩
    exact absurd hl (by simp)
  | cons x l ih =>
    obtain ⟨hx, hl⟩ := List.forall_mem_cons.mp h
    have ih := ih hl
    refine judges_of_total ?_ ?_ ?_
    · intro hgood
      obtain ⟨hgx, hgl⟩ := List.forall_mem_cons.mp hgood
      obtain ⟨y, hy⟩ := hx.1.mpr hgx
      obtain ⟨ys, hys⟩ := ih.1.mpr hgl
      refine ⟨y :: ys, ?_⟩
      rw [List.mapM_cons, hy, hys]
      rfl
    · rintro e ⟨before, z, after, heq, hbefore, he⟩
      cases before with
      | nil =>
        cases heq
        rw [List.mapM_cons, (hx.2 e).mpr he]
        rfl
      | cons b before =>
        cases heq
        obtain ⟨hgb, hgl⟩ := List.forall_mem_cons.mp hbefore
        obtain ⟨y, hy⟩ := hx.1.mpr hgb
        rw [List.mapM_cons, hy, (ih.2 e).mpr ⟨before, z, after, rfl, hgl, he⟩]
        rfl
    · rcases hx.good_or_fault with hgx | ⟨e, he⟩
      · rcases ih.good_or_fault with hgl | ⟨e, before, z, after, rfl, hgl, he⟩
        · exact .inl (List.forall_mem_cons.mpr ⟨hgx, hgl⟩)
        · exact .inr ⟨e, x :: before, z, after, rfl, List.forall_mem_cons.mpr ⟨hgx, hgl⟩, he⟩
      · exact .inr ⟨e, [], x, l, rfl, nofun, he⟩

/-- The same for a reader of numbered items. -/
theorem Judges.mapM_range {f : Nat → Except ε β} {Good : Nat → Prop} {Fault : Nat → ε → Prop}
    {n : Nat} (h : ∀ k, k < n → Judges (f k) (Good k) (Fault k)) :
    Judges ((List.range n).mapM f) (∀ k, k < n → Good k)
      fun e => ∃ m, m < n ∧ (∀ k, k < m → Good k) ∧ Fault m e := by
  refine (Judges.mapM fun k hk => h k (List.mem_range.mp hk)).congr ?_ fun e => ?_
  · simp only [List.mem_range]
  · exact firstOf_range_iff.symm

end

end ScriptLint
