import ScriptLint.Config
import ScriptLint.Session

/-! Sessions that share one translator.

A session is linted in the locale that is active at that moment, whoever chose
it and whenever its text was set. -/

namespace ScriptLint

/-- The shared translator, and the open sessions in order of opening. -/
structure Workspace where
  translator : Translator
  sessions : List Session

/-- A way to choose the locale. -/
inductive Workspace.Choice where
  | exact (name : String)
  | closest (name : String)
  | best (names : List String)
  | defaultText
  | sources (explicit configured : Option String) (priority : List String)
  | config (settings : Config) (explicit : Option String)

inductive Workspace.Action where
  | choose (choice : Choice)
  | openSession (engine : Engine)
  | setText (session : Nat) (text : Bytes)
  | lint (session : Nat)

inductive Workspace.Reply where
  | done
  | found (available : Bool)
  | exact (outcome : Except Catalog.RequestError Unit)
  | selected (selection : Selection)
  | opened (session : Nat)
  | linted (outcome : Except Session.LintError (List Diagnostic))
  /-- There is no such session. -/
  | notOpen

namespace Workspace

/-! ## Algorithm -/

def ofCatalog (c : Catalog) : Workspace :=
  ⟨.ofCatalog c, []⟩

/-- Chooses the locale of a translator. -/
def choose (t : Translator) : Choice → Step Translator Reply
  | .exact name => (t.set name).map .exact
  | .closest name => (t.setClosest name).map .found
  | .best names => (t.setBest names).map .found
  | .defaultText => t.useDefault .done
  | .sources explicit configured priority =>
    (Selection.resolve t explicit configured priority).map .selected
  | .config settings explicit => (settings.resolve explicit t).map .selected

/-- Puts a session in place of another. -/
def put (w : Workspace) (i : Nat) (s : Session) : Workspace :=
  { w with sessions := w.sessions.set i s }

def act (w : Workspace) : Action → Step Workspace Reply
  | .choose choice => (choose w.translator choice).within fun t => { w with translator := t }
  | .openSession engine =>
    ⟨.opened w.sessions.length, { w with sessions := w.sessions ++ [.ofEngine engine] }, []⟩
  | .setText i text =>
    match w.sessions[i]? with
    | none => ⟨.notOpen, w, []⟩
    | some s => ⟨.done, w.put i (s.setText text), []⟩
  | .lint i =>
    match w.sessions[i]? with
    | none => ⟨.notOpen, w, []⟩
    | some s => ((s.lint w.translator).map .linted).within (w.put i)

/-- Acts in order. -/
def run (w : Workspace) (actions : List Action) : List (Step Workspace Reply) :=
  Step.trace act w actions

end Workspace

end ScriptLint
