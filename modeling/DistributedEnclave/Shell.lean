import DistributedEnclave.Octets

/-! How a shell splits a command line: the token recognition of POSIX without quotation marks.
Characters that begin an expansion or a pattern are only told from those that stand for
themselves; tilde expansion is left out. -/
namespace DistributedEnclave.Shell
open Octets

def newline : UInt8 := '\n'.toUInt8
def backslash : UInt8 := '\\'.toUInt8

def isBlank (c : UInt8) : Bool := c = ' '.toUInt8 || c = '\t'.toUInt8

/-- newline & ( ) ; < > | -/
def isOperator (c : UInt8) : Bool := c ∈ ([10, 38, 40, 41, 59, 60, 62, 124] : Bytes)

/-- " $ ' * ? [ and the backquote: quotation marks, expansions and patterns. -/
def isActive (c : UInt8) : Bool := c ∈ ([34, 36, 39, 42, 63, 91, 96] : Bytes)

def isOrdinary (c : UInt8) : Bool :=
  !isBlank c && !isOperator c && !isActive c && c ≠ backslash

/-- A character of a word: it stands for itself, or the shell goes on to expand it. -/
inductive Glyph where
  | plain (c : UInt8)
  | active (c : UInt8)
  deriving DecidableEq

abbrev Word := List Glyph

inductive Token where
  | word (w : Word)
  | ioNumber (w : Word)
  | operator (op : Bytes)
  deriving DecidableEq

def literal (text : Bytes) : Token := .word (text.map Glyph.plain)

def glyph (c : UInt8) : Glyph := if isActive c then .active c else .plain c

/-- && || ;; >> << >& <& <> >| -/
def continues (op : Bytes) (c : UInt8) : Bool :=
  ([[38, 38], [124, 124], [59, 59], [62, 62], [60, 60], [62, 38], [60, 38], [60, 62],
    [62, 124]] : List Bytes).contains (op ++ [c])

/-- Where the shell is: between tokens, in a word, behind a backslash in a word, in an operator
or in a comment. -/
inductive State where
  | blank
  | word (w : Word)
  | escaped (w : Word)
  | operator (op : Bytes)
  | comment
  deriving DecidableEq

def isDigit : Glyph → Bool
  | .plain c => '0'.toUInt8 ≤ c && c ≤ '9'.toUInt8
  | .active _ => false

def wordToken (w : Word) (c : UInt8) : Token :=
  if w.all isDigit && (c = '<'.toUInt8 || c = '>'.toUInt8) then .ioNumber w else .word w

def start (c : UInt8) : State :=
  if isBlank c then .blank
  else if isOperator c then .operator [c]
  else if c = backslash then .escaped []
  else if c = '#'.toUInt8 then .comment
  else .word [glyph c]

def step : State → UInt8 → State × List Token
  | .blank, c => (start c, [])
  | .word w, c =>
    if isBlank c || isOperator c then (start c, [wordToken w c])
    else if c = backslash then (.escaped w, [])
    else (.word (w ++ [glyph c]), [])
  | .escaped w, c =>
    -- a backslash in front of a newline continues the line
    if c = newline then (if w = [] then .blank else .word w, [])
    else (.word (w ++ [.plain c]), [])
  | .operator op, c =>
    if continues op c then (.operator (op ++ [c]), []) else (start c, [.operator op])
  | .comment, c => if c = newline then (.operator [c], []) else (.comment, [])

/-- The token at the end of the text. What a backslash there stands for is left open. -/
def finish : State → List Token
  | .blank | .comment => []
  | .word w => [.word w]
  | .escaped w => [.word (w ++ [.active backslash])]
  | .operator op => [.operator op]

def tokens (s : State) : Bytes → List Token
  | [] => finish s
  | c :: text => (step s c).2 ++ tokens (step s c).1 text

def after (s : State) : Bytes → State
  | [] => s
  | c :: text => after (step s c).1 text

def emitted (s : State) : Bytes → List Token
  | [] => []
  | c :: text => (step s c).2 ++ emitted (step s c).1 text

theorem tokens_append (s : State) (text text' : Bytes) :
    tokens s (text ++ text') = emitted s text ++ tokens (after s text) text' := by
  induction text generalizing s with
  | nil => rfl
  | cons c text ih => rw [List.cons_append, tokens, ih, emitted, after, List.append_assoc]

section Ordinary
variable {c : UInt8} {text : Bytes}

theorem step_ordinary (hc : isOrdinary c = true) (w : Word) :
    step (.word w) c = (.word (w ++ [.plain c]), []) := by
  simp only [isOrdinary, Bool.and_eq_true, Bool.not_eq_true', decide_eq_true_eq] at hc
  obtain ⟨⟨⟨hblank, hoperator⟩, hactive⟩, hbackslash⟩ := hc
  rw [step, hblank, hoperator, if_neg (by decide), if_neg hbackslash, glyph, hactive]
  rfl

theorem after_ordinary (h : ∀ c ∈ text, isOrdinary c = true) (w : Word) :
    after (.word w) text = .word (w ++ text.map Glyph.plain) := by
  induction text generalizing w with
  | nil => rw [after, List.map_nil, List.append_nil]
  | cons c text ih =>
    rw [after, step_ordinary (h c List.mem_cons_self),
      ih (fun d hd => h d (List.mem_cons_of_mem c hd)), List.append_assoc]
    rfl

theorem emitted_ordinary (h : ∀ c ∈ text, isOrdinary c = true) (w : Word) :
    emitted (.word w) text = [] := by
  induction text generalizing w with
  | nil => rfl
  | cons c text ih =>
    rw [emitted, step_ordinary (h c List.mem_cons_self),
      ih (fun d hd => h d (List.mem_cons_of_mem c hd))]
    rfl

/-- A text of ordinary characters is a word, unless it begins a comment. -/
theorem start_ordinary (hc : isOrdinary c = true) (hhash : c ≠ '#'.toUInt8) :
    start c = .word [.plain c] := by
  simp only [isOrdinary, Bool.and_eq_true, Bool.not_eq_true', decide_eq_true_eq] at hc
  obtain ⟨⟨⟨hblank, hoperator⟩, hactive⟩, hbackslash⟩ := hc
  rw [start, hblank, hoperator, if_neg (by decide), if_neg (by decide), if_neg hbackslash,
    if_neg hhash, glyph, hactive]
  rfl

theorem read_ordinary (hne : text ≠ []) (h : ∀ c ∈ text, isOrdinary c = true)
    (hhash : text.head? ≠ some '#'.toUInt8) :
    after .blank text = .word (text.map Glyph.plain) ∧ emitted .blank text = [] := by
  obtain ⟨c, rest, rfl⟩ := List.exists_cons_of_ne_nil hne
  have hstart := start_ordinary (h c List.mem_cons_self) fun heq => hhash (congrArg some heq)
  have hrest : ∀ d ∈ rest, isOrdinary d = true := fun d hd => h d (List.mem_cons_of_mem c hd)
  rw [after, emitted, step, hstart, after_ordinary hrest, emitted_ordinary hrest]
  exact ⟨rfl, rfl⟩

theorem step_space (w : Word) : step (.word w) ' '.toUInt8 = (.blank, [.word w]) := by
  have h : (' '.toUInt8 = '<'.toUInt8 || ' '.toUInt8 = '>'.toUInt8) = false := by decide
  rw [step, if_pos (by decide), wordToken, h, Bool.and_false]
  rfl

end Ordinary

/-! What the plain characters of the tokens are worth, paid for by the characters of the text.
A backslash pays in advance for the character behind it. -/

section Value
variable (v u : UInt8 → Nat) (k : Nat)

def Glyph.value : Glyph → Nat
  | .plain c => v c
  | .active _ => 0

def wordValue (w : Word) : Nat := (w.map (Glyph.value v)).sum

def Token.value : Token → Nat
  | .word w | .ioNumber w => wordValue v w
  | .operator _ => 0

def value (ts : List Token) : Nat := (ts.map (Token.value v)).sum

def State.value : State → Nat
  | .blank | .operator _ | .comment => 0
  | .word w => wordValue v w
  | .escaped w => wordValue v w + k

def price (text : Bytes) : Nat := (text.map u).sum

@[simp] theorem wordValue_nil : wordValue v [] = 0 := rfl

@[simp] theorem wordValue_concat (w : Word) (g : Glyph) :
    wordValue v (w ++ [g]) = wordValue v w + g.value v := by
  rw [wordValue, List.map_append, List.sum_append]; rfl

@[simp] theorem value_nil : value v [] = 0 := rfl

@[simp] theorem value_cons (t : Token) (ts : List Token) :
    value v (t :: ts) = t.value v + value v ts := rfl

theorem value_append (ts ts' : List Token) : value v (ts ++ ts') = value v ts + value v ts' := by
  rw [value, List.map_append, List.sum_append]; rfl

@[simp] theorem price_nil : price u [] = 0 := rfl

@[simp] theorem price_cons (c : UInt8) (text : Bytes) :
    price u (c :: text) = u c + price u text := rfl

@[simp] theorem price_append (text text' : Bytes) :
    price u (text ++ text') = price u text + price u text' := by
  rw [price, List.map_append, List.sum_append]; rfl

theorem wordValue_plain (text : Bytes) : wordValue v (text.map .plain) = price v text := by
  rw [wordValue, List.map_map]; rfl

@[simp] theorem value_literal (text : Bytes) : (literal text).value v = price v text :=
  wordValue_plain v text

@[simp] theorem value_ioNumber (text : Bytes) :
    (Token.ioNumber (text.map .plain)).value v = price v text := wordValue_plain v text

@[simp] theorem value_operator (op : Bytes) : (Token.operator op).value v = 0 := rfl

theorem le_price {c : UInt8} {text : Bytes} (hc : c ∈ text) : u c ≤ price u text := by
  obtain ⟨before, rest, rfl⟩ := List.append_of_mem hc
  rw [price_append, price_cons]
  omega

theorem price_mul (n : Nat) (text : Bytes) : price (fun c => n*u c) text = n*price u text := by
  induction text with
  | nil => rfl
  | cons c text ih => rw [price_cons, price_cons, ih, Nat.mul_add]

theorem price_take_le (n : Nat) (text : Bytes) : price u (text.take n) ≤ price u text := by
  conv_rhs => rw [← List.take_append_drop n text]
  rw [price_append]
  exact Nat.le_add_right _ _

@[simp] theorem value_wordToken (w : Word) (c : UInt8) :
    (wordToken w c).value v = wordValue v w := by
  rw [wordToken]; split <;> rfl

/-- A character pays for itself where it stands for itself, a backslash pays `k`, and `k` is
enough for what is missing from the price of a quoted character. -/
structure Pays : Prop where
  plain : ∀ c, isBlank c = false → isOperator c = false → isActive c = false → c ≠ backslash →
    v c ≤ u c
  escape : k ≤ u backslash
  escaped : ∀ c, v c ≤ k + u c

variable {v u k}

theorem Pays.glyph (h : Pays v u k) {c : UInt8} (hblank : isBlank c = false)
    (hoperator : isOperator c = false) (hslash : c ≠ backslash) : (glyph c).value v ≤ u c := by
  rw [Shell.glyph]
  split
  · exact Nat.zero_le _
  · rename_i hactive
    exact h.plain c hblank hoperator (by simpa using hactive) hslash

theorem Pays.start (h : Pays v u k) (c : UInt8) : (start c).value v k ≤ u c := by
  rw [Shell.start]
  split
  · exact Nat.zero_le _
  split
  · exact Nat.zero_le _
  split
  · rename_i hslash
    rw [hslash, State.value, wordValue_nil, Nat.zero_add]
    exact h.escape
  split
  · exact Nat.zero_le _
  · rw [State.value, show [Shell.glyph c] = [] ++ [Shell.glyph c] from rfl, wordValue_concat,
      wordValue_nil, Nat.zero_add]
    exact h.glyph (by simpa using ‹¬isBlank c = true›) (by simpa using ‹¬isOperator c = true›)
      ‹_›

theorem Pays.step (h : Pays v u k) (s : State) (c : UInt8) :
    value v (step s c).2 + (step s c).1.value v k ≤ s.value v k + u c := by
  have hstart := h.start c
  cases s with
  | blank => simpa [Shell.step, State.value] using hstart
  | word w =>
    rw [Shell.step]
    split
    · simpa [State.value] using hstart
    split
    · rename_i hslash
      have := h.escape
      simp only [value_nil, State.value, hslash]
      omega
    · have := h.glyph (c := c) (by simp_all) (by simp_all) ‹_›
      simp only [value_nil, State.value, wordValue_concat]
      omega
  | escaped w =>
    rw [Shell.step]
    split
    · split <;> simp only [value_nil, State.value] <;> omega
    · have := h.escaped c
      simp only [value_nil, State.value, wordValue_concat, Glyph.value]
      omega
  | operator op =>
    rw [Shell.step]
    split
    · exact Nat.zero_le _
    · simpa [State.value, Token.value] using hstart
  | comment =>
    rw [Shell.step]
    split <;> exact Nat.zero_le _

theorem Pays.tokens (h : Pays v u k) (s : State) (text : Bytes) :
    value v (tokens s text) ≤ s.value v k + price u text := by
  induction text generalizing s with
  | nil =>
    cases s <;> simp [Shell.tokens, finish, State.value, Token.value, Glyph.value]
  | cons c text ih =>
    have hstep := h.step s c
    have hrest := ih (Shell.step s c).1
    rw [Shell.tokens, value_append, price_cons]
    omega

end Value

end DistributedEnclave.Shell
