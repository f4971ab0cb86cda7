import DistributedEnclave.Octets
import Mathlib.Logic.Function.Basic

/-! Directory entries, the creation of new files under them and their removal. Paths of any
kind are resolved by a function, so that several of them may name one entry. -/
namespace DistributedEnclave.Files
open Octets

inductive Node where
  | regular (contents : Bytes)
  | other (kind : Nat)
  deriving DecidableEq

abbrev FileSystem (Entry : Type*) := Entry → Option Node

variable {Path Entry : Type*} [DecidableEq Entry] {names : Path → Option Entry}
  {fs fs' fs'' : FileSystem Entry} {path : Path} {contents : Bytes}

def place (fs : FileSystem Entry) (e : Entry) (contents : Bytes) : FileSystem Entry :=
  Function.update fs e (some (.regular contents))

/-- `open` with `O_WRONLY | O_CREAT | O_EXCL`: a path that already names something is refused,
and any other may be. -/
def openExclusive (names : Path → Option Entry) (fs : FileSystem Entry) (path : Path)
    (created : Bool) : Option (Entry × FileSystem Entry) :=
  match names path with
  | none => none
  | some e => if (fs e).isNone && created then some (e, place fs e []) else none

/-- `write` on a descriptor that stands at the end of its file. -/
def append (fs : FileSystem Entry) (e : Entry) (chunk : Bytes) : FileSystem Entry :=
  match fs e with
  | some (.regular contents) => place fs e (contents ++ chunk)
  | _ => fs

def unlink (names : Path → Option Entry) (fs : FileSystem Entry) (path : Path) : FileSystem Entry :=
  match names path with
  | none => fs
  | some e => Function.update fs e none

@[simp] theorem place_self (e : Entry) : place fs e contents e = some (.regular contents) :=
  Function.update_self e _ fs

theorem place_of_ne {e e' : Entry} (h : e' ≠ e) : place fs e contents e' = fs e' :=
  Function.update_of_ne h _ fs

theorem append_place (e : Entry) (chunk : Bytes) :
    append (place fs e contents) e chunk = place fs e (contents ++ chunk) := by
  simp only [append, place_self]
  exact Function.update_idem _ _ fs

def Created (names : Path → Option Entry) (fs : FileSystem Entry) (path : Path) (contents : Bytes)
    (fs' : FileSystem Entry) : Prop :=
  ∃ e, names path = some e ∧ fs e = none ∧ fs' = place fs e contents

theorem openExclusive_some {created : Bool} {e : Entry}
    (h : openExclusive names fs path created = some (e, fs')) :
    names path = some e ∧ fs e = none ∧ fs' = place fs e [] := by
  rw [openExclusive] at h
  split at h
  · cases h
  · rename_i e' hname
    split at h
    · rename_i hfree
      obtain ⟨rfl, rfl⟩ := Prod.mk.inj (Option.some.inj h)
      exact ⟨hname, Option.isNone_iff_eq_none.mp (Bool.and_eq_true_iff.mp hfree).1, rfl⟩
    · cases h

theorem openExclusive_free {e : Entry} (hname : names path = some e) (hfree : fs e = none) :
    openExclusive names fs path true = some (e, place fs e []) := by
  simp only [openExclusive, hname, hfree, Option.isNone_none, Bool.and_self, if_true]

/-- The removal of a new file leaves nothing of it. -/
theorem Created.unlink (h : Created names fs path contents fs') :
    Files.unlink names fs' path = fs := by
  obtain ⟨e, hname, hfree, rfl⟩ := h
  simp only [Files.unlink, hname, place]
  rw [Function.update_idem, ← hfree, Function.update_eq_self]

/-- Files that exist are not touched. -/
theorem Created.kept (h : Created names fs path contents fs') {e : Entry} {node : Node}
    (hnode : fs e = some node) : fs' e = some node := by
  obtain ⟨e', -, hfree, rfl⟩ := h
  have hne : e ≠ e' := fun heq => by rw [heq, hfree] at hnode; cases hnode
  rw [place_of_ne hne, hnode]

end DistributedEnclave.Files
