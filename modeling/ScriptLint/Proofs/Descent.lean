import ScriptLint.Proofs.Scanning

/-! Scanning by recursive descent.

`Descent.code` and `Descent.template` call each other: a template calls `code`
for each of its substitutions, and `code` calls `template` at each backtick.  A
call counts its own braces and returns at the first brace that closes none of
them.  The items in between are those of `Lexeme.read`.

Two things hold of every call (`Reading`):

* it reads no further than the text goes;
* its findings arise from items of that text (`Arises`), no two of them from the
  same byte (`Located`). -/

namespace ScriptLint.Lexer

namespace Descent

/-! ## Algorithm -/

/-- What a call gives back: its findings in the order they arose, and how many bytes it read. -/
structure Outcome where
  found : List Finding
  read : Nat

/-- One stretch of text after another. -/
def Outcome.andThen (o next : Outcome) : Outcome :=
  ⟨o.found ++ next.found, o.read + next.read⟩

/-- `n` bytes without findings. -/
def skip (n : Nat) : Outcome :=
  ⟨[], n⟩

mutual

/-- Reads code from offset `pos` on.  Inside a substitution `braces` counts its
open braces, and the first brace that closes none of them ends the call; outside
of all templates braces mean nothing. -/
def code (braces : Option Nat) (pos : Nat) (ms : List Mark) : Outcome :=
  match ms with
  | [] => skip 0
  | m :: rest =>
    match Lexeme.read m rest with
    | .plain n => (skip (n + 1)).andThen (code braces (pos + (n + 1)) (rest.drop n))
    | .fault kind width n =>
      (⟨[Scan.faultAt kind (.ofLength pos (width + 1))], n + 1⟩ : Outcome).andThen
        (code braces (pos + (n + 1)) (rest.drop n))
    | .backtick =>
      let t := template pos (pos + 1) rest
      ((skip 1).andThen t).andThen (code braces (pos + (1 + t.read)) (rest.drop t.read))
    | .braceOpen => (skip 1).andThen (code (braces.map (· + 1)) (pos + 1) rest)
    | .braceClose =>
      match braces with
      | none => (skip 1).andThen (code none (pos + 1) rest)
      | some 0 => skip 1
      | some (braces + 1) => (skip 1).andThen (code (some braces) (pos + 1) rest)
termination_by ms.length

/-- Reads text of the template that begins at `start`, from offset `pos` on,
through its closing backtick.  The end of the text leaves the template open,
also when a substitution has just run into it. -/
def template (start pos : Nat) (ms : List Mark) : Outcome :=
  match ms with
  | [] => ⟨[Scan.unclosedTemplate start pos], 0⟩
  | [.backslash] => ⟨[Scan.unclosedTemplate start (pos + 1)], 1⟩
  | .backslash :: _ :: rest => (skip 2).andThen (template start (pos + 2) rest)
  | .backtick :: _ => skip 1
  | .dollar :: .braceOpen :: rest =>
    let o := code (some 0) (pos + 2) rest
    ((skip 2).andThen o).andThen (template start (pos + (2 + o.read)) (rest.drop o.read))
  | _ :: rest => (skip 1).andThen (template start (pos + 1) rest)
termination_by ms.length

end

/-- Length of the first line if it starts with `#!`. -/
def shebang (ms : List Mark) : Nat :=
  if [.hash, .bang].isPrefixOf ms then (line ms).length else 0

/-- The findings of a script, in the order in which they arise. -/
def findings (ms : List Mark) : List Finding :=
  (code none (shebang ms) (ms.drop (shebang ms))).found

/-- The findings of a script in order of their first byte. -/
def scan (ms : List Mark) : List Finding :=
  (findings ms).mergeSort fun f g => f.span.first ≤ g.span.first

/-! ## Lemmas -/

@[simp]
theorem read_skip (n : Nat) : (skip n).read = n := rfl

@[simp]
theorem found_andThen (o next : Outcome) : (o.andThen next).found = o.found ++ next.found := rfl

@[simp]
theorem read_andThen (o next : Outcome) : (o.andThen next).read = o.read + next.read := rfl

@[simp]
theorem code_nil (braces : Option Nat) (pos : Nat) : code braces pos [] = skip 0 := by
  rw [code]

section
variable {braces : Option Nat} {pos n width : Nat} {kind : Kind} {m : Mark} {rest : List Mark}

theorem code_plain (h : Lexeme.read m rest = .plain n) :
    code braces pos (m :: rest) =
      (skip (n + 1)).andThen (code braces (pos + (n + 1)) (rest.drop n)) := by
  rw [code.eq_def]
  simp only [h]

theorem code_fault (h : Lexeme.read m rest = .fault kind width n) :
    code braces pos (m :: rest) =
      (⟨[Scan.faultAt kind (.ofLength pos (width + 1))], n + 1⟩ : Outcome).andThen
        (code braces (pos + (n + 1)) (rest.drop n)) := by
  rw [code.eq_def]
  simp only [h]

theorem code_backtick (h : Lexeme.read m rest = .backtick) :
    code braces pos (m :: rest) =
      ((skip 1).andThen (template pos (pos + 1) rest)).andThen
        (code braces (pos + ((skip 1).andThen (template pos (pos + 1) rest)).read)
          ((m :: rest).drop ((skip 1).andThen (template pos (pos + 1) rest)).read)) := by
  rw [code.eq_def]
  simp only [h, Outcome.andThen, skip, Nat.add_comm 1, List.drop_succ_cons]

theorem code_braceOpen (h : Lexeme.read m rest = .braceOpen) :
    code braces pos (m :: rest) =
      (skip 1).andThen (code (braces.map (· + 1)) (pos + 1) rest) := by
  rw [code.eq_def]
  simp only [h]

theorem code_braceClose_none (h : Lexeme.read m rest = .braceClose) :
    code none pos (m :: rest) = (skip 1).andThen (code none (pos + 1) rest) := by
  rw [code.eq_def]
  simp only [h]

theorem code_braceClose_zero (h : Lexeme.read m rest = .braceClose) :
    code (some 0) pos (m :: rest) = skip 1 := by
  rw [code.eq_def]
  simp only [h]

theorem code_braceClose_succ (h : Lexeme.read m rest = .braceClose) :
    code (some (n + 1)) pos (m :: rest) = (skip 1).andThen (code (some n) (pos + 1) rest) := by
  rw [code.eq_def]
  simp only [h]

theorem template_substitution {start : Nat} :
    template start pos (.dollar :: .braceOpen :: rest) =
      ((skip 2).andThen (code (some 0) (pos + 2) rest)).andThen
        (template start (pos + ((skip 2).andThen (code (some 0) (pos + 2) rest)).read)
          ((.dollar :: .braceOpen :: rest : List Mark).drop
            ((skip 2).andThen (code (some 0) (pos + 2) rest)).read)) := by
  rw [template]
  simp only [Outcome.andThen, skip, Nat.add_comm 2, List.drop_succ_cons]

theorem template_other {start : Nat} (h1 : m ≠ .backslash) (h2 : m ≠ .backtick)
    (h3 : ∀ tail, m = .dollar → rest = .braceOpen :: tail → False) :
    template start pos (m :: rest) = (skip 1).andThen (template start (pos + 1) rest) := by
  rw [template]
  · exact fun h => absurd h h1
  · exact fun _ _ h => absurd h h1
  · exact fun h => absurd h h2
  · exact h3

end

/-! ### Where findings come from -/

/-- `f` comes from an item of `ms`, which stands at offset `pos`: a fault of the
item itself, or a template that the end of the text leaves open. -/
inductive Arises (pos : Nat) (ms : List Mark) : Finding → Prop
  | fault {i width n : Nat} {m : Mark} {rest : List Mark} {kind : Kind} :
      ms.drop i = m :: rest → Lexeme.read m rest = .fault kind width n →
      Arises pos ms (Scan.faultAt kind (.ofLength (pos + i) (width + 1)))
  | template {i : Nat} {rest : List Mark} :
      ms.drop i = .backtick :: rest →
      Arises pos ms (Scan.unclosedTemplate (pos + i) (pos + ms.length))

theorem Arises.of_drop {pos n : Nat} {ms : List Mark} {f : Finding} (hn : n ≤ ms.length)
    (h : Arises (pos + n) (ms.drop n) f) : Arises pos ms f := by
  cases h with
  | fault hd hr =>
    rw [List.drop_drop] at hd
    rw [Nat.add_assoc]
    exact .fault hd hr
  | template hd =>
    rw [List.drop_drop] at hd
    have hlen : pos + n + (ms.drop n).length = pos + ms.length := by
      rw [List.length_drop]
      omega
    rw [hlen, Nat.add_assoc]
    exact .template hd

/-- The findings begin at different bytes from `lo` up to but not including `hi`. -/
structure Located (lo hi : Nat) (fs : List Finding) : Prop where
  bounds : ∀ f ∈ fs, lo ≤ f.span.first ∧ f.span.first < hi
  distinct : fs.Pairwise fun f g => f.span.first ≠ g.span.first

theorem Located.nil (lo hi : Nat) : Located lo hi [] :=
  ⟨by simp, .nil⟩

theorem Located.append {lo mid hi : Nat} {fs gs : List Finding} (hlo : lo ≤ mid) (hhi : mid ≤ hi)
    (hf : Located lo mid fs) (hg : Located mid hi gs) : Located lo hi (fs ++ gs) := by
  refine ⟨fun f h => ?_, List.pairwise_append.mpr ⟨hf.distinct, hg.distinct, fun f h g h' => ?_⟩⟩
  · rcases List.mem_append.mp h with h | h
    · have := hf.bounds f h
      omega
    · have := hg.bounds f h
      omega
  · have := hf.bounds f h
    have := hg.bounds g h'
    omega

/-- A finding that begins before all others may also come after them. -/
theorem Located.concat {lo hi : Nat} {fs : List Finding} {f : Finding}
    (hf : f.span.first = lo) (h : Located (lo + 1) hi fs) (hlt : lo < hi) :
    Located lo hi (fs ++ [f]) := by
  refine ⟨fun g hg => ?_, List.pairwise_append.mpr ⟨h.distinct, by simp, fun g hg g' hg' => ?_⟩⟩
  · rcases List.mem_append.mp hg with hg | hg
    · have := h.bounds g hg
      omega
    · rw [List.mem_singleton.mp hg]
      omega
  · have := h.bounds g hg
    rw [List.mem_singleton.mp hg']
    omega

/-- What holds of every call that reads `ms` from offset `pos` on: it stays
inside the text, and its findings arise there, each from a byte of its own. -/
structure Reading (pos : Nat) (ms : List Mark) (o : Outcome) : Prop where
  read_le : o.read ≤ ms.length
  located : Located pos (pos + o.read) o.found
  arises : ∀ f ∈ o.found, Arises pos ms f

namespace Reading

variable {pos n : Nat} {ms : List Mark} {o : Outcome}

theorem skip (h : n ≤ ms.length) : Reading pos ms (Descent.skip n) :=
  ⟨h, .nil _ _, by simp [Descent.skip]⟩

theorem andThen {next : Outcome} (h : Reading pos ms o)
    (h' : Reading (pos + o.read) (ms.drop o.read) next) : Reading pos ms (o.andThen next) := by
  have hle := h'.read_le
  have hle' := h.read_le
  rw [List.length_drop] at hle
  refine ⟨?_, ?_, fun f hf => ?_⟩
  · show o.read + next.read ≤ ms.length
    omega
  · show Located pos (pos + (o.read + next.read)) _
    rw [← Nat.add_assoc]
    exact .append (Nat.le_add_right _ _) (Nat.le_add_right _ _) h.located h'.located
  · rcases List.mem_append.mp hf with hf | hf
    · exact h.arises f hf
    · exact (h'.arises f hf).of_drop h.read_le

/-- An item that is at fault. -/
theorem fault {m : Mark} {rest : List Mark} {kind : Kind} {width : Nat}
    (h : Lexeme.read m rest = .fault kind width n) :
    Reading pos (m :: rest) ⟨[Scan.faultAt kind (.ofLength pos (width + 1))], n + 1⟩ := by
  have hfits := Lexeme.read_fits m rest
  rw [h] at hfits
  have hfirst : (Scan.faultAt kind (.ofLength pos (width + 1))).span.first = pos := by
    rw [Scan.span_faultAt]
    rfl
  refine ⟨Nat.succ_le_succ hfits.2, ⟨fun f hf => ?_, by simp⟩, fun f hf => ?_⟩
  · rw [List.mem_singleton.mp hf, hfirst]
    show pos ≤ pos ∧ pos < pos + (n + 1)
    omega
  · rw [List.mem_singleton.mp hf]
    exact .fault (i := 0) rfl h

end Reading

/-- What holds of a call of `template`: the finding of the template itself comes last, if at all. -/
structure Body (start pos : Nat) (ms : List Mark) (o : Outcome) : Prop where
  split : ∃ inner last, o.found = inner ++ last ∧
    (last = [] ∨ last = [Scan.unclosedTemplate start (pos + ms.length)]) ∧
    Reading pos ms ⟨inner, o.read⟩

namespace Body

variable {start pos : Nat} {ms : List Mark} {o : Outcome}

theorem cut : Body start pos ms
    ⟨[Scan.unclosedTemplate start (pos + ms.length)], ms.length⟩ :=
  ⟨[], _, rfl, .inr rfl, .skip (Nat.le_refl _)⟩

theorem after {next : Outcome} (h : Reading pos ms o)
    (h' : Body start (pos + o.read) (ms.drop o.read) next) :
    Body start pos ms (o.andThen next) := by
  obtain ⟨inner, last, hfound, hlast, hr⟩ := h'.split
  have hlen : pos + o.read + (ms.drop o.read).length = pos + ms.length := by
    have := h.read_le
    rw [List.length_drop]
    omega
  rw [hlen] at hlast
  refine ⟨o.found ++ inner, last, ?_, hlast, h.andThen hr⟩
  show o.found ++ next.found = _
  rw [hfound, List.append_assoc]

/-- Seen from the code around it, a template is one more stretch of text. -/
theorem reading {rest : List Mark} (h : Body pos (pos + 1) rest o) :
    Reading pos (.backtick :: rest) ((skip 1).andThen o) := by
  obtain ⟨inner, last, hfound, hlast, hr⟩ := h.split
  have hinner : Reading pos (.backtick :: rest) ((skip 1).andThen ⟨inner, o.read⟩) :=
    Reading.andThen (.skip (by simp)) hr
  have heq : (skip 1).andThen o = ⟨inner ++ last, 1 + o.read⟩ := by
    simp [Outcome.andThen, skip, hfound]
  rw [heq]
  rcases hlast with rfl | rfl
  · rw [List.append_nil]
    exact hinner
  · have hend : pos + 1 + rest.length = pos + (Mark.backtick :: rest).length := by
      rw [List.length_cons]
      omega
    have hloc : Located (pos + 1) (pos + (1 + o.read)) inner := by
      rw [← Nat.add_assoc]
      exact hr.located
    have hlt : pos < pos + (1 + o.read) := by omega
    refine ⟨hinner.read_le, .concat rfl hloc hlt, fun f hf => ?_⟩
    rcases List.mem_append.mp hf with hf | hf
    · exact hinner.arises f hf
    · rw [List.mem_singleton.mp hf, hend]
      exact .template (i := 0) rfl

end Body

-- One case for each item of code, and one for each form of template text; the
-- two calls go down to shorter rests together.
mutual

theorem reading_code (braces : Option Nat) (pos : Nat) (ms : List Mark) :
    Reading pos ms (code braces pos ms) := by
  match ms with
  | [] => rw [code_nil]; exact .skip (Nat.le_refl _)
  | m :: rest =>
    have hfits := Lexeme.read_fits m rest
    cases hm : Lexeme.read m rest with
    | plain n =>
      rw [hm] at hfits
      rw [code_plain hm]
      exact .andThen (.skip (Nat.succ_le_succ hfits)) (reading_code braces _ (rest.drop n))
    | fault kind width n =>
      rw [code_fault hm]
      exact .andThen (.fault hm) (reading_code braces _ (rest.drop n))
    | backtick =>
      have hb : m = .backtick := Lexeme.eq_of_delimiter?_read (by rw [hm]; rfl)
      subst hb
      rw [code_backtick hm]
      refine .andThen (body_template pos (pos + 1) rest).reading (reading_code braces _ _)
    | braceOpen =>
      rw [code_braceOpen hm]
      exact .andThen (.skip (by simp)) (reading_code _ _ rest)
    | braceClose =>
      match braces with
      | none =>
        rw [code_braceClose_none hm]
        exact .andThen (.skip (by simp)) (reading_code _ _ rest)
      | some 0 =>
        rw [code_braceClose_zero hm]
        exact .skip (by simp)
      | some (n + 1) =>
        rw [code_braceClose_succ hm]
        exact .andThen (.skip (by simp)) (reading_code _ _ rest)
termination_by ms.length

theorem body_template (start pos : Nat) (ms : List Mark) :
    Body start pos ms (template start pos ms) := by
  rw [template.eq_def]
  split
  next => exact .cut
  next => exact .cut
  next m rest => exact .after (.skip (by simp)) (body_template start (pos + 2) rest)
  next rest => exact ⟨[], [], rfl, .inl rfl, .skip (by simp)⟩
  next rest =>
    refine .after (.andThen (.skip (by simp)) (reading_code (some 0) (pos + 2) rest)) ?_
    have hb := body_template start (pos + (2 + (code (some 0) (pos + 2) rest).read))
      (rest.drop (code (some 0) (pos + 2) rest).read)
    simpa only [read_andThen, read_skip, Nat.add_comm 2, List.drop_succ_cons] using hb
  next m rest _ _ _ _ => exact .after (.skip (by simp)) (body_template start (pos + 1) rest)
termination_by ms.length

end

/-! ## Top theorems -/

theorem shebang_le (ms : List Mark) : shebang ms ≤ ms.length := by
  unfold shebang
  split
  next => exact length_line_le ms
  next => exact Nat.zero_le _

/-- A finding of a script arises from an item of it, at the offset where that item stands. -/
theorem arises_of_mem_findings {ms : List Mark} {f : Finding} (h : f ∈ findings ms) :
    Arises 0 ms f := by
  have hr := (reading_code none (shebang ms) (ms.drop (shebang ms))).arises f h
  refine Arises.of_drop (shebang_le ms) ?_
  rwa [Nat.zero_add]

/-- No two findings of a script begin at the same byte. -/
theorem findings_distinct (ms : List Mark) :
    (findings ms).Pairwise fun f g => f.span.first ≠ g.span.first :=
  (reading_code none (shebang ms) (ms.drop (shebang ms))).located.distinct

end Descent

end ScriptLint.Lexer
