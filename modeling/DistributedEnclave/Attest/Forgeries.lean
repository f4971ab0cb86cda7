import DistributedEnclave.Attest.Hostile

/-! The work loop of `worker_attest.c` and `worker_star.c` in front of messages of any tag and
length. -/
namespace DistributedEnclave.Attest
open DistributedEnclave.Octets DistributedEnclave.Cluster DistributedEnclave.Streams

def abytes : Nat := 16

def recvTotal : Nat := npub+4+abytes

def discardMax : Nat := 65536

def mpiUndefined : Int := -32766

/-- What a round of the loop finds: the message, what the receive buffer on the stack held
before, and whether `malloc` has the memory for a message to be discarded. -/
structure Arrival where
  tag : Int32
  body : Bytes
  stack : Bytes
  malloc : Bool

def Known (tag : Int32) : Prop := tag = tagShutdown ∨ tag = tagIdle ∨ tag = tagTask

instance (tag : Int32) : Decidable (Known tag) := inferInstanceAs (Decidable (_ ∨ _ ∨ _))

/-- The buffer of `secure_recv` after the receive. A short message overwrites its front only. -/
def Arrival.buffer (m : Arrival) : Bytes :=
  (m.body ++ m.stack.drop m.body.length).take recvTotal

def mpiGetCount (len : Nat) : Int := if len < 2^31 then len else mpiUndefined

def discardSize (len : Nat) : Nat :=
  if mpiGetCount len < 0 ∨ mpiGetCount len = mpiUndefined then 0
  else if mpiGetCount len > discardMax then discardMax
  else (mpiGetCount len).toNat

inductive Standing where
  | inside (s : State)
  | left (s : State)
  | aborted

section
variable {S : Sodium Bytes} (K : Secrets S) (encrypt : Bytes → Bytes → Bytes → Bytes)

/-- One round of the work loop of worker `i`. A receive into a buffer that is smaller than the
message fails, and `die_mpi` aborts. -/
def workRound (s : State) (i : Nat) (m : Arrival) : Standing :=
  if Known m.tag then
    if m.body.length > recvTotal then .aborted
    else if ((workerStep K encrypt s i m.tag m.buffer).workers i).running then
      .inside (workerStep K encrypt s i m.tag m.buffer)
    else .left (workerStep K encrypt s i m.tag m.buffer)
  else if ¬m.malloc then .left s
  else if m.body.length > discardSize m.body.length then .aborted
  else .inside (workerStep K encrypt s i m.tag m.buffer)

def work (s : State) (i : Nat) : List Arrival → Standing
  | [] => .inside s
  | m :: ms =>
    match workRound K encrypt s i m with
    | .inside s => work s i ms
    | .left s => .left s
    | .aborted => .aborted

/-- The AEAD does not open what the receive has left in the buffer. -/
def Forged (s : State) (i : Nat) (m : Arrival) : Prop :=
  Known m.tag → m.body.length ≤ recvTotal →
    openSealed s.log (sessionKey K i) (m.buffer.take npub) [] (m.buffer.drop npub) = none

def Absorbed (m : Arrival) : Prop :=
  if Known m.tag then m.body.length ≤ recvTotal
  else m.body.length ≤ discardMax ∧ m.malloc = true

variable {K encrypt} {s : State} {i : Nat} {m : Arrival}

theorem length_le_discardSize (len : Nat) : len ≤ discardSize len ↔ len ≤ discardMax := by
  have hmax : discardMax < 2^31 := by decide
  rw [discardSize, mpiGetCount]
  by_cases hlen : len < 2^31
  · rw [if_pos hlen, if_neg (by simp only [mpiUndefined]; omega)]
    split
    · exact Iff.rfl
    · rename_i hle
      rw [Int.toNat_natCast]
      exact ⟨fun _ => by omega, fun _ => Nat.le_refl len⟩
  · rw [if_neg hlen, if_pos (.inl (by decide))]
    omega

theorem secureRecv_unopened {log : List Record} {key : Bytes} {counter plainLen : Nat} {buf : Bytes}
    (h : openSealed log key (buf.take npub) [] (buf.drop npub) = none) :
    secureRecv log key counter plainLen buf = none := by
  rw [secureRecv, h]
  split <;> rfl

/-- A forged message of a known tag is only consumed. -/
theorem workerStep_forged (h : Known m.tag → openSealed s.log (sessionKey K i)
    (m.buffer.take npub) [] (m.buffer.drop npub) = none) :
    workerStep K encrypt s i m.tag m.buffer = s := by
  by_cases hknown : Known m.tag
  · rw [workerStep]
    simp only [secureRecv_unopened (h hknown), ite_self]
  · simp only [Known, not_or] at hknown
    rw [workerStep]
    simp only [if_neg hknown.1, if_neg hknown.2.1, if_neg hknown.2.2]

theorem workRound_absorbed (hrun : (s.workers i).running = true) (hforged : Forged K s i m)
    (h : Absorbed m) : workRound K encrypt s i m = .inside s := by
  rw [Absorbed] at h
  rw [workRound]
  split at h
  · rename_i hknown
    rw [if_pos hknown, if_neg (Nat.not_lt.mpr h), workerStep_forged fun _ => hforged hknown h,
      if_pos hrun]
  · rename_i hknown
    have hfits := (length_le_discardSize _).mpr h.1
    rw [if_neg hknown, if_neg (not_not.mpr h.2), if_neg (Nat.not_lt.mpr hfits),
      workerStep_forged fun hk => absurd hk hknown]

/-- A message that does not fit takes the worker out of the loop. -/
theorem workRound_not_absorbed (h : ¬Absorbed m) :
    workRound K encrypt s i m = .aborted ∨ workRound K encrypt s i m = .left s := by
  rw [Absorbed] at h
  rw [workRound]
  split at h
  · rename_i hknown
    rw [if_pos hknown, if_pos (Nat.lt_of_not_le h)]
    exact .inl rfl
  · rename_i hknown
    rw [if_neg hknown]
    by_cases hmalloc : m.malloc = true
    · have hlong : ¬m.body.length ≤ discardSize m.body.length := fun hle =>
        h ⟨(length_le_discardSize _).mp hle, hmalloc⟩
      rw [if_neg (not_not.mpr hmalloc), if_pos (Nat.lt_of_not_le hlong)]
      exact .inl rfl
    · rw [if_pos hmalloc]
      exact .inr rfl

/-- The loop ends with a message that does not fit. -/
theorem work_not_absorbed (h : ¬Absorbed m) (ms : List Arrival) (s' : State) :
    work K encrypt s i (m :: ms) ≠ .inside s' := by
  rw [work]
  have hround : workRound K encrypt s i m = .aborted ∨ workRound K encrypt s i m = .left s :=
    workRound_not_absorbed h
  cases hround with
  | inl haborted =>
    rw [haborted]
    exact nofun
  | inr hleft =>
    rw [hleft]
    exact nofun

/-- The loop goes on behind forged messages as if there were none exactly if each of them fits
in the buffer for its tag. -/
theorem forgeries_ignored_iff (hrun : (s.workers i).running = true) {ms : List Arrival}
    (hforged : ∀ m ∈ ms, Forged K s i m) :
    (∀ rest, work K encrypt s i (ms ++ rest) = work K encrypt s i rest) ↔
      ∀ m ∈ ms, Absorbed m := by
  induction ms with
  | nil => exact ⟨fun _ => nofun, fun _ _ => rfl⟩
  | cons m ms ih =>
    have hhead := hforged m List.mem_cons_self
    have htail := ih fun m hm => hforged m (List.mem_cons_of_mem _ hm)
    rw [List.forall_mem_cons]
    by_cases h : Absorbed m
    · rw [← htail, and_iff_right h]
      simp only [List.cons_append, work, workRound_absorbed hrun hhead h]
    · refine ⟨fun hall => ?_, fun hall => absurd hall.1 h⟩
      have hnone := hall []
      rw [List.append_nil] at hnone
      exact absurd hnone (work_not_absorbed h ms s)

end

def shortShutdown : Arrival := { tag := tagShutdown, body := [1, 2, 3], stack := [], malloc := true }

theorem shortShutdown_ignored :
    (∀ rest, work plainSecrets plainEncrypt (initial 1) 0 ([shortShutdown] ++ rest) =
        work plainSecrets plainEncrypt (initial 1) 0 rest) ↔
      ∀ m ∈ [shortShutdown], Absorbed m :=
  forgeries_ignored_iff rfl fun _ _ _ _ => rfl

def longTask : Arrival :=
  { tag := tagTask, body := List.replicate (recvTotal+1) 0, stack := [], malloc := true }

def longUnknown : Arrival :=
  { tag := 5, body := List.replicate (discardMax+1) 0, stack := [], malloc := true }

theorem long_forgeries_abort :
    (Forged plainSecrets (initial 1) 0 longTask ∧
      workRound plainSecrets plainEncrypt (initial 1) 0 longTask = .aborted) ∧
    (Forged plainSecrets (initial 1) 0 longUnknown ∧
      workRound plainSecrets plainEncrypt (initial 1) 0 longUnknown = .aborted) := by
  refine ⟨⟨fun _ _ => rfl, ?_⟩, fun _ _ => rfl, ?_⟩
  · rw [workRound, if_pos (by decide), if_pos]
    rw [longTask, List.length_replicate]
    exact Nat.lt_succ_self _
  · have hmalloc : longUnknown.malloc = true := rfl
    rw [workRound, if_neg (by decide), if_neg (not_not.mpr hmalloc), if_pos]
    rw [longUnknown, List.length_replicate]
    decide

end DistributedEnclave.Attest
