import ScriptLint.Session

/-! Documents behind numbers, for a program that embeds the linter.

All documents share one locale.  A call never fails: a handle that stands for no
document makes it do nothing, a lint that goes wrong gives no records, and an
unknown locale means default text.  A list of records is closed by a sentinel.

A document keeps the records of its latest lint, and apart from them their messages,
until its text is set or it is linted again. -/

namespace ScriptLint

/-- A diagnostic as the embedding program sees it; the sentinel has no message. -/
structure Host.Record where
  message : Option String
  code : String
  first : Nat
  stop : Nat
  deriving DecidableEq

/-- A record as its document keeps it: the message is one of the document's messages. -/
structure Host.Kept where
  message : Option Nat
  code : String
  first : Nat
  stop : Nat

/-- A session with the records of its latest lint. -/
structure Host.Document where
  session : Session
  records : Array Host.Kept
  messages : Array String

/-- The shared locale, and the documents in order of creation; `none` where one was destroyed. -/
structure Host where
  translator : Translator
  documents : List (Option Host.Document)

namespace Host

/-! ## Documents -/

def sentinel : Record :=
  ⟨none, "", 0, 0⟩

/-- The sentinel as documents keep it. -/
def Kept.sentinel : Kept :=
  ⟨none, "", 0, 0⟩

/-- The message of a record.  It is ended by a NUL, so a NUL inside is replaced. -/
def messageOf (d : Diagnostic) : String :=
  String.ofList (d.message.toList.map fun c => if c = '\x00' then '\uFFFD' else c)

namespace Document

def ofEngine (engine : Engine) : Document :=
  ⟨.ofEngine engine, #[.sentinel], #[]⟩

def cleared (d : Document) : Document :=
  { d with records := #[], messages := #[] }

def setText (d : Document) (text : Bytes) : Document :=
  { d.cleared with session := d.session.setText text }

/-- Keeps a diagnostic: its record, and its message. -/
def keep (d : Document) (x : Diagnostic) : Document :=
  { d with
    records := d.records.push ⟨some d.messages.size, x.kind.code, x.span.first, x.span.stop⟩
    messages := d.messages.push (messageOf x) }

/-- Ends the records with the sentinel. -/
def close (d : Document) : Document :=
  { d with records := d.records.push .sentinel }

/-- The records that a document keeps, with their messages. -/
def shown (d : Document) : List Record :=
  d.records.toList.map fun r => ⟨r.message.bind (d.messages[·]?), r.code, r.first, r.stop⟩

/-- Lints a document anew.  When the catalog lacks a message, the call breaks off with the records
cleared, and a fallback is given. -/
def lint (d : Document) (t : Translator) : Step Document (List Record) :=
  let step := d.session.lint t
  let d := { d.cleared with session := step.state }
  match step.result with
  | .ok diagnostics =>
    let d := (diagnostics.foldl keep d).close
    ⟨d.shown, d, step.events⟩
  | .error (.engine fault) => ⟨d.close.shown, d.close, step.events ++ [.lintFailed fault]⟩
  | .error (.unknownMessage _) => ⟨[Host.sentinel], d, step.events ++ [.callBroken "lint"]⟩

end Document

/-! ## Algorithm -/

/-- No documents, default text. -/
def initial : Host :=
  ⟨.ofCatalog Catalog.builtin, []⟩

/-- The live document behind a handle, with its number. -/
def live? (h : Host) (handle : Option Nat) : Option (Nat × Document) :=
  handle.bind fun number => ((h.documents[number]?).join).map (number, ·)

def put (h : Host) (number : Nat) (d : Option Document) : Host :=
  { h with documents := h.documents.set number d }

/-- Opens a document and gives its number. -/
def create (h : Host) : Step Host Nat :=
  ⟨h.documents.length, { h with documents := h.documents ++ [some (.ofEngine .lexer)] }, []⟩

def destroy (h : Host) (handle : Option Nat) : Step Host Unit :=
  match h.live? handle with
  | none => ⟨(), h, []⟩
  | some (number, _) => ⟨(), h.put number none, []⟩

/-- Sets a document's text to the first `length` bytes at `source`.  Without a
source only the empty text can be set. -/
def setText (h : Host) (handle : Option Nat) (source : Option Bytes) (length : Nat) :
    Step Host Unit :=
  match h.live? handle with
  | none => ⟨(), h, []⟩
  | some (number, d) =>
    match source with
    | some bytes => ⟨(), h.put number (some (d.setText (bytes.take length))), []⟩
    | none =>
      if length = 0 then ⟨(), h.put number (some (d.setText [])), []⟩
      else ⟨(), h, [.nullTextIgnored length]⟩

/-- Lints a document; the records end with the sentinel. -/
def lint (h : Host) (handle : Option Nat) : Step Host (List Record) :=
  match h.live? handle with
  | none => ⟨[sentinel], h, []⟩
  | some (number, d) => (d.lint h.translator).within fun d => h.put number (some d)

/-- Selects the locale for all documents.  The name ends at its first NUL; no name, no change. -/
def setLocale (h : Host) (name : Option Bytes) : Step Host Unit :=
  let put := fun t => { h with translator := t }
  match name with
  | none => ⟨(), h, []⟩
  | some bytes =>
    match Utf8.decode? bytes.untilNul with
    | none => ((h.translator.useDefault ()).within put).after [.localeNameIllFormed]
    | some name =>
      let step := h.translator.setBest [name]
      if step.result then (step.map fun _ => ()).within put
      else
        ((step.state.useDefault ()).within put).after (step.events ++ [.localeUnavailable name])

/-- The names that `setLocale` knows, and the empty name for default text. -/
def localeNames (h : Host) : List String :=
  h.translator.catalog.locales.names ++ [""]

/-! ## Calls as data -/

/-- A call of the embedding program; a missing handle, text or name is a null pointer. -/
inductive Call where
  | create
  | destroy (handle : Option Nat)
  | setText (handle : Option Nat) (source : Option Bytes) (length : Nat)
  | lint (handle : Option Nat)
  | setLocale (handle : Option Nat) (name : Option Bytes)
  | localeNames

inductive Reply where
  | done
  | number (n : Nat)
  | records (rs : List Record)
  | names (ss : List String)

/-- Answers a call.  The locale is shared, so the handle given with it does not matter. -/
def call (h : Host) : Call → Step Host Reply
  | .create => h.create.map .number
  | .destroy handle => (h.destroy handle).map fun _ => .done
  | .setText handle source length => (h.setText handle source length).map fun _ => .done
  | .lint handle => (h.lint handle).map .records
  | .setLocale _ name => (h.setLocale name).map fun _ => .done
  | .localeNames => ⟨.names h.localeNames, h, []⟩

/-- Answers calls in order. -/
def run (h : Host) (calls : List Call) : List (Step Host Reply) :=
  Step.trace call h calls

end Host

end ScriptLint
