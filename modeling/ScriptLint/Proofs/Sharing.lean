import ScriptLint.Proofs.Lifecycle

/-! Sessions that share a translator share the active locale and nothing else.

What a session sees of a run is what it would see without the texts and lints of
all other sessions (`Alike.run`):

  view i w actions = (w.run (actions.filter (·.concerns i))).map (seen i)

The locale in turn comes from the choices alone: it is the one that the latest
successful choice decided (`translator_after`), and every lint uses it. -/

namespace ScriptLint

theorem Translator.moved_moved (t : Translator) (first second : Option Nat) :
    (t.moved first).moved second = t.moved (second <|> first) := by
  cases first <;> cases second <;> rfl

namespace Workspace

/-! ## What a session sees -/

/-- An action that is no other session's own. -/
def Action.concerns (i : Nat) (a : Action) : Bool :=
  a.target?.all (· == i)

/-- What session `i` sees of a step: the reply and the events, and afterwards the
translator and the session itself. -/
def seen (i : Nat) (step : Step Workspace Reply) :
    Reply × List Event × Translator × Option Session :=
  (step.result, step.events, step.state.translator, step.state.sessions[i]?)

/-- Two workspaces that session `i` cannot tell apart. -/
structure Alike (i : Nat) (w w' : Workspace) : Prop where
  translator_eq : w.translator = w'.translator
  length_eq : w.sessions.length = w'.sessions.length
  session_eq : w.sessions[i]? = w'.sessions[i]?

theorem Alike.trans {i : Nat} {w₁ w₂ w₃ : Workspace} (h : Alike i w₁ w₂) (h' : Alike i w₂ w₃) :
    Alike i w₁ w₃ :=
  ⟨h.translator_eq.trans h'.translator_eq, h.length_eq.trans h'.length_eq,
    h.session_eq.trans h'.session_eq⟩

theorem length_act (w : Workspace) (a : Action) :
    (w.act a).state.sessions.length =
      match a with
      | .openSession _ => w.sessions.length + 1
      | _ => w.sessions.length := by
  cases a with
  | choose choice => rfl
  | openSession engine => exact List.length_append
  | setText j text => rw [sessions_setText, List.length_modify]
  | lint j => rw [sessions_lint, List.length_modify]

/-! ## Steps -/

theorem Alike.act {i : Nat} {w w' : Workspace} (h : Alike i w w') (a : Action) :
    Alike i (w.act a).state (w'.act a).state := by
  constructor
  · rw [translator_act, translator_act, h.translator_eq]
  · rw [length_act, length_act, h.length_eq]
  · rw [sessions_act, sessions_act, h.translator_eq, h.length_eq, h.session_eq]

/-- An action of another session does not show. -/
theorem alike_act {i : Nat} {a : Action} (ha : a.concerns i = false) (w : Workspace) :
    Alike i (w.act a).state w := by
  have hsession : ∀ (j : Nat) (f : Session → Session), (j == i) = false →
      w.sessions[i]?.map (fun s => if j = i then f s else s) = w.sessions[i]? := by
    intro j f hj
    have hid : (fun s => if j = i then f s else s) = id := by
      funext s
      exact if_neg (ne_of_beq_false hj)
    rw [hid, Option.map_id]
    rfl
  cases a with
  | choose choice => cases ha
  | openSession engine => cases ha
  | setText j text =>
    exact ⟨translator_act w _, length_act w _, (sessions_act w _ i).trans (hsession j _ ha)⟩
  | lint j =>
    exact ⟨translator_act w _, length_act w _, (sessions_act w _ i).trans (hsession j _ ha)⟩

/-- All else looks the same in workspaces that are alike. -/
theorem Alike.seen_act {i : Nat} {w w' : Workspace} (h : Alike i w w') {a : Action}
    (ha : a.concerns i = true) : seen i (w.act a) = seen i (w'.act a) := by
  have hreply : (w.act a).result = (w'.act a).result ∧ (w.act a).events = (w'.act a).events := by
    cases a with
    | choose choice =>
      dsimp only [Workspace.act, Step.within]
      rw [h.translator_eq]
      exact ⟨rfl, rfl⟩
    | openSession engine => exact ⟨congrArg Reply.opened h.length_eq, rfl⟩
    | setText j text =>
      have hj : j = i := eq_of_beq ha
      dsimp only [Workspace.act]
      rw [hj, h.session_eq]
      cases w'.sessions[i]? <;> exact ⟨rfl, rfl⟩
    | lint j =>
      have hj : j = i := eq_of_beq ha
      dsimp only [Workspace.act]
      rw [hj, h.session_eq, h.translator_eq]
      cases w'.sessions[i]? <;> exact ⟨rfl, rfl⟩
  unfold seen
  rw [hreply.1, hreply.2, (h.act a).translator_eq, (h.act a).session_eq]

/-! ## Runs -/

/-- The steps of a run that concern session `i`, as it sees them. -/
def view (i : Nat) (w : Workspace) (actions : List Action) :
    List (Reply × List Event × Translator × Option Session) :=
  ((actions.zip (w.run actions)).filter fun x => x.1.concerns i).map fun x => seen i x.2

theorem Alike.run {i : Nat} {w w' : Workspace} (h : Alike i w w') (actions : List Action) :
    view i w actions = (w'.run (actions.filter (·.concerns i))).map (seen i) ∧
    Alike i (w.after actions) (w'.after (actions.filter (·.concerns i))) := by
  induction actions generalizing w w' with
  | nil => exact ⟨rfl, h⟩
  | cons a actions ih =>
    have hview : view i w (a :: actions) =
        if a.concerns i then seen i (w.act a) :: view i (w.act a).state actions
        else view i (w.act a).state actions := by
      show List.map _ (List.filter _ ((a, w.act a) :: _)) = _
      rw [List.filter_cons]
      by_cases ha : a.concerns i = true
      · rw [if_pos ha, if_pos ha]
        rfl
      · rw [if_neg ha, if_neg ha]
        rfl
    rw [hview]
    by_cases ha : a.concerns i = true
    · obtain ⟨hrun, hafter⟩ := ih (h.act a)
      rw [if_pos ha, List.filter_cons_of_pos ha, hrun, h.seen_act ha]
      exact ⟨rfl, hafter⟩
    · -- only the full run takes this step, and it stays alike
      rw [if_neg ha, List.filter_cons_of_neg ha]
      exact ih ((alike_act (Bool.eq_false_iff.mpr ha) w).trans h)

/-- The locale that the latest successful choice decided; the present one, if there was none. -/
def localeAfter (w : Workspace) (actions : List Action) : Nat :=
  (actions.reverse.findSome? (·.index? w.translator.catalog.locales)).getD w.translator.active

theorem translator_after (w : Workspace) (actions : List Action) :
    (w.after actions).translator = { w.translator with active := w.localeAfter actions } := by
  have hmoved : (w.after actions).translator = w.translator.moved
      (actions.reverse.findSome? (·.index? w.translator.catalog.locales)) := by
    induction actions using List.reverseRecOn with
    | nil => rfl
    | append_singleton actions a ih =>
      rw [after_concat, translator_act, ih, Translator.catalog_moved, Translator.moved_moved,
        List.reverse_append, List.reverse_singleton, List.singleton_append, List.findSome?_cons]
      cases a.index? w.translator.catalog.locales <;> rfl
  rw [hmoved]
  unfold localeAfter
  cases actions.reverse.findSome? (·.index? w.translator.catalog.locales) <;> rfl

/-! ## Top theorem -/

/-- Sessions meet in the locale only.  Without the texts and lints of the others, a
session sees the same replies and events, the same translator and the same of
itself; texts and lints leave the translator alone; and a lint of any session, old
or new its text, is worded in the locale of the latest choice that succeeded. -/
theorem sessions_isolated (w : Workspace) (actions : List Action) :
    (∀ i, view i w actions = (w.run (actions.filter (·.concerns i))).map (seen i) ∧
      (w.after actions).translator = (w.after (actions.filter (·.concerns i))).translator ∧
      (w.after actions).sessions[i]? = (w.after (actions.filter (·.concerns i))).sessions[i]?) ∧
    (∀ j text, ((w.after actions).act (.setText j text)).state.translator =
      (w.after actions).translator) ∧
    (∀ j, ((w.after actions).act (.lint j)).state.translator = (w.after actions).translator) ∧
    (∀ choice, ((w.after actions).act (.choose choice)).result.isSuccess =
      (choice.index? w.translator.catalog.locales).isSome) ∧
    ∀ j s, (w.after actions).sessions[j]? = some s → ∃ outcome,
      ((w.after actions).act (.lint j)).result = .linted outcome ∧
      s.Outcome w.translator.catalog (w.localeAfter actions) outcome := by
  refine ⟨fun i => ?_, fun j text => translator_act _ _, fun j => translator_act _ _,
    fun choice => ?_, fun j s hs => ?_⟩
  · have hself : Alike i w w := ⟨rfl, rfl, rfl⟩
    obtain ⟨hview, hafter⟩ := hself.run actions
    exact ⟨hview, hafter.translator_eq, hafter.session_eq⟩
  · rw [← catalog_after w actions]
    exact isSuccess_choose _ choice
  · have houtcome := s.lint_outcome (w.after actions).translator
    refine ⟨_, (act_lint hs).1, ?_⟩
    rw [translator_after] at houtcome ⊢
    exact houtcome

/-- Two sessions; the lints of the second stop at a message that the catalog lacks. -/
def crossing : List Action :=
  [.openSession (.scripted [⟨.unclosedBlockComment, .ofLength 0 2, []⟩]),
    .openSession (.scripted [⟨.strayAt, .ofLength 0 1, []⟩]),
    .setText 0 [0x2F, 0x2A], .setText 1 [0x40], .lint 1, .choose (.exact "de"), .lint 1]

theorem isolated_crossing :
    view 0 (ofCatalog bilingual) crossing =
      ((ofCatalog bilingual).run (crossing.take 3 ++ [.choose (.exact "de")])).map (seen 0) ∧
    ∃ s outcome, ((ofCatalog bilingual).after crossing).sessions[0]? = some s ∧
      s.text = [0x2F, 0x2A] ∧
      (((ofCatalog bilingual).after crossing).act (.lint 0)).result = .linted outcome ∧
      s.Outcome bilingual 0 outcome := by
  obtain ⟨hview, -, -, -, hlint⟩ := sessions_isolated (ofCatalog bilingual) crossing
  obtain ⟨outcome, hresult, houtcome⟩ := hlint 0 _ rfl
  exact ⟨(hview 0).1, _, outcome, rfl, rfl, hresult, houtcome⟩

end Workspace

end ScriptLint
