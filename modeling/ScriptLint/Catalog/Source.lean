import ScriptLint.Catalog.Packed

/-! Catalogs as they are written by hand, and how they are packed.

`Source.pack` lays the texts out in one pool: a reserved byte, then each
distinct text once, in order of first use, closed by a NUL.  A translation that
is missing or empty gets offset zero. -/

namespace ScriptLint.Catalog

/-- A message: its default text and its translations, in the order of the locales. -/
structure Entry where
  default : String
  translations : List (Option String)
  deriving DecidableEq

/-- Locale names and messages; an empty translation counts as missing. -/
structure Source where
  locales : List String
  rows : List Entry

/-! ## Algorithm -/

/-- The texts laid out so far, latest first, with their offsets, and the size of the pool. -/
structure Pool where
  texts : List (String × Nat)
  size : Nat

namespace Pool

/-- Only the reserved byte. -/
def empty : Pool :=
  ⟨[], 1⟩

def offset? (p : Pool) (text : String) : Option Nat :=
  p.texts.lookup text

/-- The offset of a text, which is added at the end if it is new. -/
def intern (p : Pool) (message : Nat) (text : String) : Except Error (Nat × Pool) :=
  match p.offset? text with
  | some offset => .ok (offset, p)
  | none =>
    if text.toList.contains '\x00' then .error (.interiorNul message)
    else if maxOffset < p.size then .error (.poolTooLarge p.size)
    else .ok (p.size, ⟨(text, p.size) :: p.texts, p.size + (Bytes.ofString text).length + 1⟩)

/-- The pool written out. -/
def toBytes (p : Pool) : Bytes :=
  0 :: p.texts.reverse.flatMap fun (text, _) => Bytes.ofString text ++ [0]

/-- Lays out a row's translations. -/
def internAll (message : Nat) : Pool → List (Option String) → Except Error (List Nat × Pool)
  | p, [] => .ok ([], p)
  | p, translation :: rest =>
    let text := translation.getD ""
    let slot := if text = "" then .ok (0, p) else p.intern message text
    match slot with
    | .error e => .error e
    | .ok (offset, p) =>
      match internAll message p rest with
      | .error e => .error e
      | .ok (offsets, p) => .ok (offset :: offsets, p)

end Pool

/-- The first locale name that cannot be used, among those after `earlier`. -/
def checkLocales (earlier : List String) : List String → Except Error Unit
  | [] => .ok ()
  | name :: rest =>
    if name = "" then .error (.emptyLocaleName earlier.length)
    else if name.toList.contains '\x00' then .error (.invalidLocaleName earlier.length)
    else if earlier.contains name then .error (.duplicateLocale name)
    else checkLocales (name :: earlier) rest

/-- Packs a row for `width` locales: the translations in order, then the default text. -/
def packRow (width message : Nat) (p : Pool) (row : Entry) : Except Error (List Nat × Pool) :=
  if row.translations.length ≠ width then
    .error (.translationCount message width row.translations.length)
  else if row.default = "" then .error (.emptyDefault message)
  else
    match p.internAll message row.translations with
    | .error e => .error e
    | .ok (offsets, p) =>
      match p.intern message row.default with
      | .error e => .error e
      | .ok (offset, p) => .ok (offsets ++ [offset], p)

/-- Packs rows from number `message` on; `packed` holds the rows before, latest first. -/
def packRows (width : Nat) :
    Nat → Pool → List (List Nat) → List Entry → Except Error (List (List Nat) × Pool)
  | _, p, packed, [] => .ok (packed.reverse, p)
  | message, p, packed, row :: rest =>
    match packRow width message p row with
    | .error e => .error e
    | .ok (offsets, p) => packRows width (message + 1) p (offsets :: packed) rest

/-- Packs a catalog. -/
def Source.pack (s : Source) : Except Error Packed :=
  match checkLocales [] s.locales with
  | .error e => .error e
  | .ok () =>
    if maxMessages < s.rows.length then .error (.tooManyMessages s.rows.length)
    else
      (packRows s.locales.length 0 .empty [] s.rows).map fun (rows, pool) =>
        ⟨(⟨s.locales⟩ : Locale.Directory).toTable, rows.flatten, pool.toBytes⟩

/-- Packs a catalog and loads it again. -/
def Source.build (s : Source) : Except Error Catalog :=
  s.pack.bind Packed.load

/-- The catalog that is built; an empty one if it cannot be built. -/
def Source.catalog (s : Source) : Catalog :=
  match s.build with
  | .ok c => c
  | .error _ => .ofLocales ⟨[]⟩

end ScriptLint.Catalog
