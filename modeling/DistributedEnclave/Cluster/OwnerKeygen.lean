import DistributedEnclave.Files

/-! The owner's key pair is written to two new files. -/
namespace DistributedEnclave.Cluster.OwnerKeygen
open Octets Files

/-- What a call of `write` returns: a count, or -1 with `EINTR` or another error. -/
inductive WriteResult where
  | wrote (count : Nat)
  | interrupted
  | failed
  deriving DecidableEq

structure Calls where
  created : Bool
  writes : List WriteResult
  synced : Bool
  closed : Bool

structure KeyPair where
  publicKey : Bytes
  secretKey : Bytes
  publicKey_length : publicKey.length = 32
  secretKey_length : secretKey.length = 64

inductive Loop where
  | finished
  | failed
  | running
  deriving DecidableEq

section
variable {Path Entry : Type*} [DecidableEq Entry]

/-- A call of `write` takes no more than it is offered. -/
def writeAll (e : Entry) (data : Bytes) :
    List WriteResult → Nat → FileSystem Entry → FileSystem Entry × Loop
  | [], written, fs => (fs, if written < data.length then .running else .finished)
  | result :: writes, written, fs =>
    if written < data.length then
      match result with
      | .interrupted => writeAll e data writes written fs
      | .failed => (fs, .failed)
      | .wrote count =>
        writeAll e data writes (written+min count (data.length-written))
          (append fs e ((data.drop written).take count))
    else (fs, .finished)

/-- No result means that the writes are still going on. -/
def writeNewFile (names : Path → Option Entry) (fs : FileSystem Entry) (path : Path) (data : Bytes)
    (calls : Calls) : FileSystem Entry × Option Int :=
  match openExclusive names fs path calls.created with
  | none => (fs, some (-1))
  | some (e, fs) =>
    match writeAll e data calls.writes 0 fs with
    | (fs, .running) => (fs, none)
    | (fs, .failed) => (unlink names fs path, some (-1))
    | (fs, .finished) =>
      if calls.synced && calls.closed then (fs, some 0) else (unlink names fs path, some (-1))

def main (names : Path → Option Entry) (fs : FileSystem Entry) (argv : List Path)
    (sodiumInit : Int) (keys : KeyPair) (secretCalls publicCalls : Calls) :
    FileSystem Entry × Option Nat :=
  match argv with
  | [_, publicFile, secretFile] =>
    if sodiumInit < 0 then (fs, some 1)
    else match writeNewFile names fs secretFile keys.secretKey secretCalls with
      | (fs, none) => (fs, none)
      | (fs, some secretResult) =>
        if secretResult ≠ 0 then (fs, some 1)
        else match writeNewFile names fs publicFile keys.publicKey publicCalls with
          | (fs, none) => (fs, none)
          | (fs, some publicResult) =>
            if publicResult ≠ 0 then (unlink names fs secretFile, some 1) else (fs, some 0)
  | _ => (fs, some 2)

end
section
variable {Path Entry : Type*} [DecidableEq Entry] {names : Path → Option Entry}
  {fs fs' : FileSystem Entry} {path : Path} {data : Bytes} {calls : Calls}

theorem take_append_chunk (data : Bytes) (written count : Nat) :
    data.take written ++ (data.drop written).take count =
      data.take (written+min count (data.length-written)) := by
  rw [← List.take_add, List.take_eq_take_iff]
  omega

theorem writeAll_done {e : Entry} {writes : List WriteResult} {written : Nat}
    (h : ¬written < data.length) : writeAll e data writes written fs = (fs, .finished) := by
  cases writes with
  | nil => rw [writeAll, if_neg h]
  | cons result writes => cases result <;> simp only [writeAll, if_neg h]

/-- The file holds the first `written` bytes all along. -/
theorem writeAll_spec (fs : FileSystem Entry) (e : Entry) (data : Bytes)
    (writes : List WriteResult) (written : Nat) :
    ∃ n, (writeAll e data writes written (place fs e (data.take written))).1 =
        place fs e (data.take n) ∧
      ((writeAll e data writes written (place fs e (data.take written))).2 = .finished →
        data.length ≤ n) := by
  induction writes generalizing written with
  | nil =>
    refine ⟨written, rfl, fun h => ?_⟩
    by_contra hlt
    rw [writeAll, if_pos (Nat.lt_of_not_le hlt)] at h
    cases h
  | cons result writes ih =>
    by_cases hlt : written < data.length
    · cases result with
      | interrupted =>
        simp only [writeAll, if_pos hlt]
        exact ih written
      | failed =>
        simp only [writeAll, if_pos hlt]
        exact ⟨written, rfl, fun h => absurd h (by decide)⟩
      | wrote count =>
        simp only [writeAll, if_pos hlt, append_place, take_append_chunk]
        exact ih _
    · rw [writeAll_done hlt]
      exact ⟨written, rfl, fun _ => Nat.le_of_not_lt hlt⟩

/-- A file is left if the function succeeds, or in part while it is still writing. -/
theorem writeNewFile_cases (names : Path → Option Entry) (fs : FileSystem Entry) (path : Path)
    (data : Bytes) (calls : Calls) :
    writeNewFile names fs path data calls = (fs, some (-1)) ∨
    (∃ fs', writeNewFile names fs path data calls = (fs', some 0) ∧
      Created names fs path data fs') ∨
    ∃ fs' n, writeNewFile names fs path data calls = (fs', none) ∧
      Created names fs path (data.take n) fs' := by
  rw [writeNewFile]
  cases hopen : openExclusive names fs path calls.created with
  | none => exact .inl rfl
  | some opened =>
    obtain ⟨e, fs₀⟩ := opened
    obtain ⟨hname, hfree, rfl⟩ := openExclusive_some hopen
    obtain ⟨n, hfile, hall⟩ := writeAll_spec fs e data calls.writes 0
    rw [List.take_zero] at hfile hall
    have hcreated : Created names fs path (data.take n) (place fs e (data.take n)) :=
      ⟨e, hname, hfree, rfl⟩
    generalize hloop : writeAll e data calls.writes 0 (place fs e []) = result at hfile hall
    obtain ⟨fs', ending⟩ := result
    obtain rfl : fs' = place fs e (data.take n) := hfile
    simp only [hloop]
    cases ending with
    | running => exact .inr (.inr ⟨_, n, rfl, hcreated⟩)
    | failed =>
      simp only [hcreated.unlink]
      exact .inl trivial
    | finished =>
      rw [List.take_of_length_le (hall rfl)] at hcreated ⊢
      simp only [hcreated.unlink]
      split
      · exact .inr (.inl ⟨_, rfl, hcreated⟩)
      · exact .inl rfl

def WriteResult.advances : WriteResult → Bool
  | .wrote count => decide (0 < count)
  | _ => false

/-- As many writes that count as there are bytes are enough, however short they are. -/
theorem writeAll_finishes (e : Entry) {writes : List WriteResult} (hfailed : .failed ∉ writes)
    {written : Nat} (hwrites : data.length ≤ written+writes.countP WriteResult.advances)
    (fs : FileSystem Entry) : (writeAll e data writes written fs).2 = .finished := by
  induction writes generalizing written fs with
  | nil =>
    have hdone : ¬written < data.length := Nat.not_lt.mpr hwrites
    rw [writeAll_done hdone]
  | cons result writes ih =>
    obtain ⟨hhead, htail⟩ := List.ne_and_not_mem_of_not_mem_cons hfailed
    rw [List.countP_cons] at hwrites
    by_cases hlt : written < data.length
    · cases result with
      | failed => exact absurd rfl hhead
      | interrupted =>
        simp only [writeAll, if_pos hlt]
        exact ih htail (by simpa [WriteResult.advances] using hwrites) fs
      | wrote count =>
        simp only [writeAll, if_pos hlt]
        refine ih htail ?_ _
        simp only [WriteResult.advances, decide_eq_true_eq] at hwrites
        split at hwrites <;> omega
    · rw [writeAll_done hlt]

/-- The calls for a file of this size go well, in as many pieces as they may need. -/
structure Calls.Serve (calls : Calls) (size : Nat) : Prop where
  created : calls.created = true
  writes : .failed ∉ calls.writes
  enough : size ≤ calls.writes.countP WriteResult.advances
  synced : calls.synced = true
  closed : calls.closed = true

theorem writeNewFile_succeeds {e : Entry} (hname : names path = some e) (hfree : fs e = none)
    (hcalls : calls.Serve data.length) :
    writeNewFile names fs path data calls = (place fs e data, some 0) := by
  have hfinished := writeAll_finishes e hcalls.writes
    (show data.length ≤ 0+_ by rw [Nat.zero_add]; exact hcalls.enough) (place fs e [])
  obtain ⟨n, hfile, hall⟩ := writeAll_spec fs e data calls.writes 0
  rw [List.take_zero] at hfile hall
  rw [List.take_of_length_le (hall hfinished)] at hfile
  simp only [writeNewFile, hcalls.created, openExclusive_free hname hfree, hcalls.synced,
    hcalls.closed]
  generalize writeAll e data calls.writes 0 (place fs e []) = result at hfile hfinished
  obtain ⟨fs', ending⟩ := result
  cases hfile
  cases hfinished
  rfl

/-- Two new names and system calls that go well are enough for a key pair. -/
theorem main_succeeds {program publicFile secretFile : Path} {sodiumInit : Int} {keys : KeyPair}
    {secretCalls publicCalls : Calls} {p s : Entry} (hsodium : 0 ≤ sodiumInit)
    (hp : names publicFile = some p) (hs : names secretFile = some s) (hne : p ≠ s)
    (hpfree : fs p = none) (hsfree : fs s = none) (hsecret : secretCalls.Serve 64)
    (hpublic : publicCalls.Serve 32) :
    main names fs [program, publicFile, secretFile] sodiumInit keys secretCalls publicCalls =
      (place (place fs s keys.secretKey) p keys.publicKey, some 0) := by
  have hstill : place fs s keys.secretKey p = none := by rw [place_of_ne hne, hpfree]
  rw [← keys.secretKey_length] at hsecret
  rw [← keys.publicKey_length] at hpublic
  simp only [main, if_neg (Int.not_lt.mpr hsodium), writeNewFile_succeeds hs hsfree hsecret,
    writeNewFile_succeeds hp hstill hpublic, ne_eq, not_true_eq_false, if_false]

/-- What a run may leave of the file system that it starts from. -/
structure AllOrNothing (names : Path → Option Entry) (fs : FileSystem Entry) (argv : List Path)
    (keys : KeyPair) (result : FileSystem Entry × Option Nat) : Prop where
  complete : result.2 = some 0 → ∃ program publicFile secretFile p s,
    argv = [program, publicFile, secretFile] ∧ names publicFile = some p ∧
      names secretFile = some s ∧ fs p = none ∧ fs s = none ∧
      result.1 p = some (.regular keys.publicKey) ∧ result.1 s = some (.regular keys.secretKey)
  nothing : ∀ status, result.2 = some status → status ≠ 0 → result.1 = fs
  kept : ∀ e node, fs e = some node → result.1 e = some node

variable {keys : KeyPair} {argv : List Path}

omit [DecidableEq Entry] in
theorem AllOrNothing.refused {status : Nat} (h : status ≠ 0) :
    AllOrNothing names fs argv keys (fs, some status) where
  complete hzero := absurd (Option.some.inj hzero) h
  nothing _ _ _ := rfl
  kept _ _ hnode := hnode

omit [DecidableEq Entry] in
theorem AllOrNothing.unfinished (h : ∀ e node, fs e = some node → fs' e = some node) :
    AllOrNothing names fs argv keys (fs', none) where
  complete := nofun
  nothing := nofun
  kept := h

/-- The second file cannot be the first one, which exists when it is created. -/
theorem AllOrNothing.done {fs'' : FileSystem Entry} {program publicFile secretFile : Path}
    (hsecret : Created names fs secretFile keys.secretKey fs')
    (hpublic : Created names fs' publicFile keys.publicKey fs'') :
    AllOrNothing names fs [program, publicFile, secretFile] keys (fs'', some 0) where
  complete _ := by
    obtain ⟨s, hs, hsfree, hsplaced⟩ := id hsecret
    obtain ⟨p, hp, hpfree, hpplaced⟩ := id hpublic
    have hheld : fs' s = some (.regular keys.secretKey) := by rw [hsplaced, place_self]
    have hne : p ≠ s := fun heq => by rw [heq, hheld] at hpfree; cases hpfree
    have hfree : fs p = none := by rw [← hpfree, hsplaced, place_of_ne hne]
    exact ⟨program, publicFile, secretFile, p, s, rfl, hp, hs, hfree, hsfree,
      hpplaced ▸ place_self p, hpublic.kept hheld⟩
  nothing _ hstatus hne := absurd (Option.some.inj hstatus).symm hne
  kept _ _ hnode := hpublic.kept (hsecret.kept hnode)

theorem keygen_all_or_nothing (names : Path → Option Entry) (fs : FileSystem Entry)
    (argv : List Path) (sodiumInit : Int) (keys : KeyPair) (secretCalls publicCalls : Calls) :
    AllOrNothing names fs argv keys
      (main names fs argv sodiumInit keys secretCalls publicCalls) := by
  unfold main
  split
  swap
  · exact .refused (by decide)
  split
  · exact .refused (by decide)
  rename_i publicFile secretFile _
  rcases writeNewFile_cases names fs secretFile keys.secretKey secretCalls with
    hwrite | ⟨fs', hwrite, hsecret⟩ | ⟨fs', n, hwrite, hpart⟩ <;> simp only [hwrite]
  · exact .refused (by decide)
  · rcases writeNewFile_cases names fs' publicFile keys.publicKey publicCalls with
      hnext | ⟨fs'', hnext, hpublic⟩ | ⟨fs'', n, hnext, hpart⟩ <;> simp only [hnext]
    · -- The file of the secret key is the only one that has been created.
      rw [if_neg (by decide), if_pos (by decide), hsecret.unlink]
      exact .refused (by decide)
    · exact .done hsecret hpublic
    · exact .unfinished fun _ _ hnode => hpart.kept (hsecret.kept hnode)
  · exact .unfinished fun _ _ hnode => hpart.kept hnode

end
end DistributedEnclave.Cluster.OwnerKeygen
