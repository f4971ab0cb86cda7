import DistributedEnclave.Files
import Mathlib.Data.List.TakeWhile

/-! Files that are written through buffered streams: what a path names, `fopen` and `rename`, and
the writes of a stream, each of which may take a part of what is buffered, or fail. -/
namespace DistributedEnclave.Files
open Octets

section Names
variable {Dir : Type*} (lookup : Bytes → Option Dir)

def dirname (path : Bytes) : Bytes :=
  (path.reverse.dropWhile (fun c => c ≠ '/'.toUInt8)).reverse

def basename (path : Bytes) : Bytes :=
  (path.reverse.takeWhile (fun c => c ≠ '/'.toUInt8)).reverse

def entryOf (path : Bytes) : Option (Dir × Bytes) :=
  (lookup (dirname path)).map (fun dir => (dir, basename path))

variable {lookup} {path suffix : Bytes}

/-- A suffix without a slash leads to another entry of the same directory. -/
theorem entryOf_append (hslash : '/'.toUInt8 ∉ suffix) : entryOf lookup (path ++ suffix) =
    (lookup (dirname path)).map (fun dir => (dir, basename path ++ suffix)) := by
  have hall : ∀ c ∈ suffix.reverse, decide (c ≠ '/'.toUInt8) = true := by
    intro c hc
    refine decide_eq_true fun heq => hslash ?_
    rw [← heq]
    exact List.mem_reverse.mp hc
  rw [entryOf, dirname, basename, List.reverse_append, List.dropWhile_append_of_pos hall,
    List.takeWhile_append_of_pos hall, List.reverse_append, List.reverse_reverse]
  rfl

theorem entryOf_append_ne (hslash : '/'.toUInt8 ∉ suffix) (hne : suffix ≠ []) {e e' : Dir × Bytes}
    (h : entryOf lookup (path ++ suffix) = some e) (h' : entryOf lookup path = some e') : e ≠ e' := by
  rw [entryOf_append hslash, Option.map_eq_some_iff] at h
  rw [entryOf, Option.map_eq_some_iff] at h'
  obtain ⟨dir, -, rfl⟩ := h
  obtain ⟨dir', -, rfl⟩ := h'
  intro heq
  exact hne (List.append_right_eq_self.mp (Prod.mk.inj heq).2)

end Names

variable {Path Entry : Type*} [DecidableEq Entry] {names : Path → Option Entry}
  {fs : FileSystem Entry} {path : Path} {e old new : Entry}

/-- `fopen` for writing: a file is emptied or created; from anything else it goes on to what
`follow` finds there. -/
def openTruncate (names : Path → Option Entry) (follow : Entry → Option Entry)
    (fs : FileSystem Entry) (path : Path) : Option (Entry × FileSystem Entry) :=
  match names path with
  | none => none
  | some e =>
    match fs e with
    | some (.other _) => (follow e).map (fun target => (target, place fs target []))
    | _ => some (e, place fs e [])

theorem openTruncate_some {follow : Entry → Option Entry} {opened : Entry × FileSystem Entry}
    (hfile : ∀ e, names path = some e → ∀ kind, fs e ≠ some (.other kind))
    (h : openTruncate names follow fs path = some opened) :
    names path = some opened.1 ∧ opened.2 = place fs opened.1 [] := by
  rw [openTruncate] at h
  split at h
  · cases h
  rename_i e hname
  split at h
  · rename_i kind hother
    exact absurd hother (hfile e hname kind)
  · cases h
    exact ⟨hname, rfl⟩

/-- `rename` of one entry to another, which it replaces. -/
def rename (fs : FileSystem Entry) (old new : Entry) : FileSystem Entry :=
  Function.update (Function.update fs new (fs old)) old none

theorem rename_new (hne : old ≠ new) : rename fs old new new = fs old := by
  rw [rename, Function.update_of_ne hne.symm, Function.update_self]

theorem rename_other (hold : e ≠ old) (hnew : e ≠ new) : rename fs old new e = fs e := by
  rw [rename, Function.update_of_ne hold, Function.update_of_ne hnew]

theorem append_regular {contents chunk : Bytes} (h : fs e = some (.regular contents)) :
    append fs e chunk = place fs e (contents ++ chunk) := by
  simp only [append, h]

theorem append_frame {chunk : Bytes} {e' : Entry} (hne : e' ≠ e) : append fs e chunk e' = fs e' := by
  cases h : fs e with
  | none => simp only [append, h]
  | some node =>
    cases node with
    | regular contents => rw [append_regular h, place_of_ne hne]
    | other kind => simp only [append, h]

theorem append_nothing : append fs e [] e = fs e := by
  cases h : fs e with
  | none => simp only [append, h]
  | some node =>
    cases node with
    | regular contents => rw [append_regular h, List.append_nil, place_self]
    | other kind => simp only [append, h]

/-- What has been printed to a stream and not yet written, and its error indicator. -/
structure Stream where
  pending : Bytes := []
  error : Bool := false

def Stream.print (s : Stream) (text : Bytes) : Stream := { s with pending := s.pending ++ text }

/-- One call of `write` for what is pending. It may take only a part; a failure may lose some. -/
inductive Write (e : Entry) :
    FileSystem Entry × Stream → FileSystem Entry × Stream → Prop
  | wrote (fs : FileSystem Entry) (s : Stream) (n : Nat) :
    Write e (fs, s) (append fs e (s.pending.take n), { s with pending := s.pending.drop n })
  | failed (fs : FileSystem Entry) (s : Stream) (n : Nat) :
    Write e (fs, s) (fs, { pending := s.pending.drop n, error := true })

def Holds (e : Entry) (printed : Bytes) (fs : FileSystem Entry) (pending : Bytes) : Prop :=
  ∃ contents, fs e = some (.regular contents) ∧ contents ++ pending = printed

theorem Holds.write {printed : Bytes} {fs' : FileSystem Entry} {s s' : Stream}
    (hwrite : Write e (fs, s) (fs', s')) (h : s.error = false → Holds e printed fs s.pending)
    (herror : s'.error = false) : Holds e printed fs' s'.pending := by
  cases hwrite with
  | wrote _ _ n =>
    obtain ⟨contents, hfile, hprinted⟩ := h herror
    refine ⟨contents ++ s.pending.take n, ?_, ?_⟩
    · rw [append_regular hfile]
      exact place_self e
    · rw [List.append_assoc, List.take_append_drop, hprinted]
  | failed _ _ n => cases herror

/-- A write concerns no other file. -/
theorem Write.frame {fs' : FileSystem Entry} {s s' : Stream}
    (hwrite : Write e (fs, s) (fs', s')) {e' : Entry} (hne : e' ≠ e) : fs' e' = fs e' := by
  cases hwrite with
  | wrote _ _ n => exact append_frame hne
  | failed _ _ n => rfl

/-- Where nothing is pending there is nothing to write. -/
theorem Write.settled {fs' : FileSystem Entry} {s s' : Stream}
    (hwrite : Write e (fs, s) (fs', s')) (hpending : s.pending = []) :
    s'.pending = [] ∧ fs' e = fs e := by
  cases hwrite with
  | wrote _ _ n =>
    rw [hpending, List.take_nil]
    exact ⟨List.drop_nil, append_nothing⟩
  | failed _ _ n =>
    rw [hpending]
    exact ⟨List.drop_nil, rfl⟩

end DistributedEnclave.Files
