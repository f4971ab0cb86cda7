import DistributedEnclave.Outcome
import Mathlib.Data.PNat.Basic

/-! Byte streams that are written and read in pieces. A writer takes at least one element of
what it is offered, a reader gets whatever piece is next, and the loops around them make up
for the difference. -/
namespace DistributedEnclave.Pieces
open DistributedEnclave.Outcome
variable {α ε : Type}

/-- The receiving end of a stream: the pieces that the coming reads deliver, some of which may
be empty, and whether the end is reported with the last piece or only after it. -/
structure Source (α : Type) where
  pieces : List (List α)
  endsWithLast : Bool

def Source.unread (s : Source α) : List α := s.pieces.flatten

def Source.read (s : Source α) (n : Nat) : List α × Bool × Source α :=
  match s.pieces with
  | [] => ([], true, s)
  | p::ps =>
    if p.length ≤ n then (p, ps.isEmpty && s.endsWithLast, { s with pieces := ps })
    else (p.take n, false, { s with pieces := p.drop n::ps })

inductive Shortfall where
  | eof | unexpectedEOF
  deriving DecidableEq, Repr

theorem Source.read_unread (s : Source α) (n : Nat) :
    (s.read n).1 ++ (s.read n).2.2.unread = s.unread := by
  unfold read unread
  split
  · rename_i hp
    simp [hp]
  · rename_i p ps hp
    split
    · simp [hp]
    · simp [hp, ← List.append_assoc]

theorem Source.read_length_le (s : Source α) (n : Nat) : (s.read n).1.length ≤ n := by
  unfold read
  split
  · simp
  · split
    · assumption
    · simp

/-- An end is reported only when nothing is left to read. -/
theorem Source.read_end {s : Source α} {n : Nat} (h : (s.read n).2.1 = true) :
    (s.read n).2.2.unread = [] := by
  unfold read at h ⊢
  split at h
  · rename_i hp
    simp [unread, hp]
  · rename_i p ps hp
    split at h
    · rename_i hle
      have hnil : ps = [] := by
        simp only [Bool.and_eq_true, List.isEmpty_iff] at h
        exact h.1
      simp [unread, hle, hnil]
    · cases h

/-- Every read without an end shortens the pieces or fills the buffer. -/
theorem Source.read_progress {s : Source α} {n : Nat} (hn : 0 < n) (h : (s.read n).2.1 = false) :
    (s.read n).2.2.pieces.length+(n-(s.read n).1.length) < s.pieces.length+n := by
  unfold read at h ⊢
  split at h
  · cases h
  · rename_i p ps hp
    split at h
    · rename_i hle
      simp only [if_pos hle, hp, List.length_cons]
      omega
    · rename_i hle
      simp only [if_neg hle, hp, List.length_cons, List.length_take]
      omega

def atEnd (want : Nat) (got : List α) : Except Shortfall (List α) :=
  if want ≤ got.length then .ok got
  else if got.isEmpty then .error .eof
  else .error .unexpectedEOF

def readFullFrom (want : Nat) (s : Source α) (got : List α) :
    Except Shortfall (List α) × Source α :=
  if _hfull : want ≤ got.length then (.ok got, s)
  else if _hend : (s.read (want-got.length)).2.1 = true then
    (atEnd want (got ++ (s.read (want-got.length)).1), (s.read (want-got.length)).2.2)
  else
    readFullFrom want (s.read (want-got.length)).2.2 (got ++ (s.read (want-got.length)).1)
termination_by s.pieces.length+(want-got.length)
decreasing_by
  have := Source.read_progress (s := s) (n := want-got.length) (by omega) (by simpa using _hend)
  rw [List.length_append]
  omega

/-- What is returned is the front of the stream, whatever the pieces; a stream that is too
short is an error. -/
theorem readFullFrom_spec (want : Nat) (s : Source α) (got : List α) (hgot : got.length ≤ want) :
    if want ≤ (got ++ s.unread).length then
      ∃ s', readFullFrom want s got = (.ok ((got ++ s.unread).take want), s') ∧
        s'.unread = (got ++ s.unread).drop want
    else ∃ e s', readFullFrom want s got = (.error e, s') := by
  induction s, got using @readFullFrom.induct α want with
  | case1 s got hfull =>
    obtain rfl : want = got.length := by omega
    rw [readFullFrom, dif_pos hfull, if_pos (by simp), List.take_left, List.drop_left]
    exact ⟨s, rfl, rfl⟩
  | case2 s got hfull hend =>
    have hread := s.read_unread (want-got.length)
    have hle := s.read_length_le (want-got.length)
    have hnone := Source.read_end hend
    rw [hnone, List.append_nil] at hread
    rw [readFullFrom, dif_neg hfull, dif_pos hend, hread, atEnd]
    split
    · rename_i hwant
      have hlen : (got ++ s.unread).length = want := by
        rw [List.length_append, ← hread] at hwant ⊢
        omega
      refine ⟨_, by rw [List.take_of_length_le (by omega)], ?_⟩
      rw [hnone, List.drop_of_length_le (by omega)]
    · split
      · exact ⟨_, _, rfl⟩
      · exact ⟨_, _, rfl⟩
  | case3 s got hfull hend ih =>
    have hread := s.read_unread (want-got.length)
    have hle := s.read_length_le (want-got.length)
    have hlen : (got ++ (s.read (want-got.length)).1).length ≤ want := by
      rw [List.length_append]
      omega
    have hih := ih hlen
    rw [List.append_assoc, hread] at hih
    rw [readFullFrom, dif_neg hfull, dif_neg hend]
    exact hih

/-- `io.ReadFull` into a buffer of length `want`, with its errors as those of the caller. -/
def readFull (fault : Shortfall → ε) (want : Nat) : Effect ε (Source α) (List α) :=
  ExceptT.mk fun s => ((readFullFrom want s []).1.mapError fault, (readFullFrom want s []).2)

theorem exec_readFull (fault : Shortfall → ε) (want : Nat) (s : Source α) :
    exec (readFull fault want) s =
      ((readFullFrom want s []).1.mapError fault, (readFullFrom want s []).2) := rfl

theorem readFull_ok (fault : Shortfall → ε) {want : Nat} {s : Source α}
    (h : want ≤ s.unread.length) :
    ∃ s', exec (readFull fault want) s = (.ok (s.unread.take want), s') ∧
      s'.unread = s.unread.drop want := by
  have hspec := readFullFrom_spec want s [] (Nat.zero_le _)
  rw [List.nil_append, if_pos h] at hspec
  obtain ⟨s', hrun, hrest⟩ := hspec
  exact ⟨s', by rw [exec_readFull, hrun]; rfl, hrest⟩

theorem readFull_short (fault : Shortfall → ε) {want : Nat} {s : Source α}
    (h : s.unread.length < want) : ∃ e s', exec (readFull fault want) s = (.error e, s') := by
  have hspec := readFullFrom_spec want s [] (Nat.zero_le _)
  rw [List.nil_append, if_neg (by omega)] at hspec
  obtain ⟨e, s', hrun⟩ := hspec
  exact ⟨fault e, s', by rw [exec_readFull, hrun]; rfl⟩

structure Sink (α : Type) where
  written : List α
  calls : Nat

/-- The outcome of one call of `Write`: up to so many elements are taken, at least one, or the
call fails after some. -/
inductive Grant (ε : Type) where
  | accept (n : ℕ+)
  | fail (n : Nat) (e : ε)

variable (grant : Nat → Grant ε)

def writeAllFrom (b : List α) (s : Sink α) : Except ε Unit × Sink α :=
  if _hb : b.length = 0 then (.ok (), s)
  else
    match grant s.calls with
    | .accept n =>
      let n' := min (n : Nat) b.length
      writeAllFrom (b.drop n') ⟨s.written ++ b.take n', s.calls+1⟩
    | .fail n e => (.error e, ⟨s.written ++ b.take n, s.calls+1⟩)
termination_by b.length
decreasing_by
  have := n.pos
  rw [List.length_drop]
  omega

def writeAll (b : List α) : Effect ε (Sink α) Unit := ExceptT.mk fun s => writeAllFrom grant b s

theorem exec_writeAll (b : List α) (s : Sink α) :
    exec (writeAll grant b) s = writeAllFrom grant b s := rfl

variable {grant}

/-- A writer that never fails takes everything in order. -/
theorem writeAll_ok (hgrant : ∀ k, ∃ n, grant k = .accept n) (b : List α) (s : Sink α) :
    ∃ s', exec (writeAll grant b) s = (.ok (), s') ∧ s'.written = s.written ++ b := by
  rw [exec_writeAll]
  induction b, s using @writeAllFrom.induct α ε grant with
  | case1 b s hb =>
    rw [writeAllFrom, dif_pos hb]
    exact ⟨s, rfl, by rw [List.eq_nil_of_length_eq_zero hb, List.append_nil]⟩
  | case2 b s hb n hn n' ih =>
    obtain ⟨s', hrun, hwritten⟩ := ih
    rw [writeAllFrom, dif_neg hb]
    simp only [hn]
    refine ⟨s', hrun, ?_⟩
    rw [hwritten, List.append_assoc, List.take_append_drop]
  | case3 b s hb n e hn =>
    obtain ⟨n', hn'⟩ := hgrant s.calls
    rw [hn] at hn'
    cases hn'

end DistributedEnclave.Pieces
