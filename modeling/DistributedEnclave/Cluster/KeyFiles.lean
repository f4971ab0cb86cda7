import DistributedEnclave.Cluster.OwnerKeygen

/-! The owner's key files, from the program that makes them to the programs that load them: the
central node takes the secret key, and the workers take a copy of the public one. -/
namespace DistributedEnclave.Cluster.KeyFiles
open Octets Files OwnerKeygen

/-- `fread` from the start of a file that cannot be read from `failAt` on, with `ferror`. -/
def fread (failAt : Option Nat) (contents : Bytes) (len : Nat) : Bytes × Bool :=
  let key := contents.take (min len (failAt.getD len))
  (key, decide (key.length < len ∧ failAt = some key.length))

def fgetc (failAt : Option Nat) (contents : Bytes) (offset : Nat) : Option UInt8 × Bool :=
  if failAt = some offset then (none, true) else (contents[offset]?, false)

/-- The end of both loaders. -/
def readKey (failAt : Option Nat) (contents : Bytes) (len : Nat) : Option Bytes :=
  let key := fread failAt contents len
  let trailing := fgetc failAt contents key.1.length
  if key.2 ∨ trailing.2 ∨ key.1.length ≠ len ∨ trailing.1 ≠ none then none else some key.1

inductive KeyError where
  | required | stat | mode | cannotOpen | contents
  deriving DecidableEq

structure Found where
  contents : Bytes
  isReg : Bool
  mode : UInt32

/-- The modes of regular files, what other nodes lead to, which files may be opened, and from
where on they cannot be read. -/
structure KeyHost (Path Entry : Type*) where
  names : Path → Option Entry
  modes : Entry → UInt32
  special : Entry → Option Found
  readable : Entry → Bool
  failAt : Entry → Option Nat

section Loaders
variable {Path Entry : Type*} (host : KeyHost Path Entry) (fs : FileSystem Entry)

def KeyHost.find (path : Path) : Option (Entry × Found) :=
  match host.names path with
  | none => none
  | some e =>
    match fs e with
    | none => none
    | some (.regular contents) => some (e, ⟨contents, true, host.modes e⟩)
    | some (.other _) => (host.special e).map fun found => (e, found)

def KeyHost.load (e : Entry) (found : Found) (len : Nat) : Except KeyError Bytes :=
  if host.readable e then
    (readKey (host.failAt e) found.contents len).elim (.error .contents) .ok
  else .error .cannotOpen

def publicKeyBytes : Nat := 32
def secretKeyBytes : Nat := 64

def othersMode : UInt32 := 0o077

def loadPublicKey (ownerSignPkFile : Path) : Except KeyError Bytes :=
  match host.find fs ownerSignPkFile with
  | none => .error .cannotOpen
  | some (e, found) => host.load e found publicKeyBytes

/-- `load_secret_key`; an empty setting is `none`. -/
def loadSecretKey (ownerSignSkFile : Option Path) : Except KeyError Bytes :=
  match ownerSignSkFile with
  | none => .error .required
  | some path =>
    match host.find fs path with
    | none => .error .stat
    | some (e, found) =>
      if !found.isReg then .error .stat
      else if found.mode &&& othersMode ≠ 0 then .error .mode
      else host.load e found secretKeyBytes

end Loaders

theorem fread_length {failAt : Option Nat} {contents : Bytes} {len : Nat}
    (h : (fread failAt contents len).1.length = len) :
    (fread failAt contents len).1 = contents.take len := by
  have hle : len ≤ min len (failAt.getD len) := by
    rw [fread, List.length_take] at h
    omega
  rw [fread, Nat.min_eq_left (Nat.le_min.mp hle).2]

theorem fgetc_end {failAt : Option Nat} {contents : Bytes} {offset : Nat} :
    fgetc failAt contents offset = (none, false) ↔
      failAt ≠ some offset ∧ contents.length ≤ offset := by
  rw [fgetc]
  split
  case isTrue hfail => simp [hfail]
  case isFalse hread => simp [hread]

/-- A key is loaded from exactly its own octets, when also the end of the file can be read. -/
theorem readKey_some {failAt : Option Nat} {contents key : Bytes} {len : Nat} :
    readKey failAt contents len = some key ↔
      key = contents ∧ contents.length = len ∧ ∀ n, failAt = some n → len < n := by
  constructor
  · intro h
    rw [readKey] at h
    split at h
    case isTrue => cases h
    case isFalse hok =>
      simp only [not_or, not_not, Bool.not_eq_true] at hok
      obtain ⟨-, htrailing, hlen, hnone⟩ := hok
      rw [hlen] at htrailing hnone
      obtain ⟨hfail, hle⟩ := fgetc_end.mp (Prod.ext hnone htrailing)
      have hread := fread_length hlen
      have hwhole : contents.length = len := by
        rw [hread, List.length_take] at hlen
        omega
      have hkey : key = contents := by
        rw [hread, List.take_of_length_le hle] at h
        exact (Option.some.inj h).symm
      refine ⟨hkey, hwhole, fun n hn => ?_⟩
      subst hn
      rw [fread, List.length_take, Option.getD_some] at hlen
      have hne : n ≠ len := fun heq => hfail (heq ▸ rfl)
      omega
  · rintro ⟨rfl, rfl, hfail⟩
    have hread : fread failAt key key.length = (key, false) := by
      have hall : key.length ≤ failAt.getD key.length := by
        cases failAt with
        | none => exact Nat.le_refl _
        | some n => exact (hfail n rfl).le
      simp [fread, Nat.min_eq_left hall]
    have hend : fgetc failAt key key.length = (none, false) :=
      fgetc_end.mpr ⟨fun hn => absurd (hfail _ hn) (Nat.lt_irrefl _), Nat.le_refl _⟩
    simp [readKey, hread, hend]

structure KeyHost.Reads {Path Entry : Type*} (host : KeyHost Path Entry) (e : Entry) (len : Nat) :
    Prop where
  readable : host.readable e = true
  failAt : ∀ n, host.failAt e = some n → len < n

section Loads
variable {Path Entry : Type*} {host : KeyHost Path Entry} {fs : FileSystem Entry} {path : Path}
  {e : Entry} {contents key : Bytes}

theorem load_ok {found : Found} {len : Nat} : host.load e found len = .ok key ↔
    host.Reads e len ∧ key = found.contents ∧ found.contents.length = len := by
  have hkey : readKey (host.failAt e) found.contents len = some key ↔ _ := readKey_some
  rw [KeyHost.load]
  split
  case isTrue hreadable =>
    constructor
    · intro h
      cases hread : readKey (host.failAt e) found.contents len with
      | none =>
        rw [hread] at h
        cases h
      | some key' =>
        rw [hread] at h
        cases h
        obtain ⟨heq, hlen, hfail⟩ := hkey.mp hread
        exact ⟨⟨hreadable, hfail⟩, heq, hlen⟩
    · rintro ⟨hreads, heq, hlen⟩
      rw [hkey.mpr ⟨heq, hlen, hreads.failAt⟩]
      rfl
  case isFalse hclosed => exact iff_of_false nofun fun h => hclosed h.1.readable

theorem find_regular (hname : host.names path = some e) (hfile : fs e = some (.regular contents)) :
    host.find fs path = some (e, ⟨contents, true, host.modes e⟩) := by
  rw [KeyHost.find, hname]
  dsimp only
  rw [hfile]

theorem find_absent (hname : host.names path = some e) (hfile : fs e = none) :
    host.find fs path = none := by
  rw [KeyHost.find, hname]
  dsimp only
  rw [hfile]

theorem loadPublicKey_iff (hname : host.names path = some e)
    (hfile : fs e = some (.regular contents)) : loadPublicKey host fs path = .ok key ↔
      host.Reads e publicKeyBytes ∧ key = contents ∧ contents.length = publicKeyBytes := by
  rw [loadPublicKey, find_regular hname hfile]
  exact load_ok

theorem loadPublicKey_absent (hname : host.names path = some e) (hfile : fs e = none) :
    loadPublicKey host fs path = .error .cannotOpen := by
  rw [loadPublicKey, find_absent hname hfile]

theorem loadSecretKey_iff (hname : host.names path = some e)
    (hfile : fs e = some (.regular contents)) (hmode : host.modes e &&& othersMode = 0) :
    loadSecretKey host fs (some path) = .ok key ↔
      host.Reads e secretKeyBytes ∧ key = contents ∧ contents.length = secretKeyBytes := by
  rw [loadSecretKey, find_regular hname hfile]
  dsimp only
  rw [if_neg (by decide), if_neg (not_not_intro hmode)]
  exact load_ok

theorem loadSecretKey_absent (hname : host.names path = some e) (hfile : fs e = none) :
    loadSecretKey host fs (some path) = .error .stat := by
  rw [loadSecretKey, find_absent hname hfile]

/-- The mode of `owner_keygen` passes under every mask. -/
theorem owner_mode (umask : UInt32) : (0o600 &&& ~~~umask) &&& othersMode = 0 := by
  have hnone : (0o600 : UInt32) &&& othersMode = 0 := by decide
  rw [UInt32.and_assoc, UInt32.and_comm (~~~umask), ← UInt32.and_assoc, hnone, UInt32.zero_and]

end Loads

section Keygen
variable {Path Entry : Type*} [DecidableEq Entry] {names : Path → Option Entry}
  {fs fs' : FileSystem Entry} {program publicFile secretFile : Path} {p s : Entry}
  {sodiumInit : Int} {keys : KeyPair} {secretCalls publicCalls : Calls} {status : Option Nat}

inductive Leaves (fs : FileSystem Entry) (p s : Entry) (keys : KeyPair) :
    FileSystem Entry × Option Nat → Prop where
  | nothing {status : Nat} (h : status ≠ 0) : Leaves fs p s keys (fs, some status)
  | secretPart (n : Nat) : Leaves fs p s keys (place fs s (keys.secretKey.take n), none)
  | publicPart (n : Nat) :
    Leaves fs p s keys (place (place fs s keys.secretKey) p (keys.publicKey.take n), none)
  | both : Leaves fs p s keys (place (place fs s keys.secretKey) p keys.publicKey, some 0)

theorem created_eq {path : Path} {e : Entry} {contents : Bytes} (hname : names path = some e)
    (h : Created names fs path contents fs') : fs' = place fs e contents := by
  obtain ⟨e', hname', -, heq⟩ := h
  rw [hname] at hname'
  cases hname'
  exact heq

theorem main_leaves (hp : names publicFile = some p) (hs : names secretFile = some s) :
    Leaves fs p s keys (main names fs [program, publicFile, secretFile] sodiumInit keys
      secretCalls publicCalls) := by
  unfold main
  dsimp only
  split
  · exact .nothing (by decide)
  rcases writeNewFile_cases names fs secretFile keys.secretKey secretCalls with
    hwrite | ⟨fs₁, hwrite, hsecret⟩ | ⟨fs₁, n, hwrite, hpart⟩ <;> simp only [hwrite]
  · exact .nothing (by decide)
  · rcases writeNewFile_cases names fs₁ publicFile keys.publicKey publicCalls with
      hnext | ⟨fs₂, hnext, hpublic⟩ | ⟨fs₂, n, hnext, hpart⟩ <;> simp only [hnext]
    · rw [if_neg (by decide), if_pos (by decide), hsecret.unlink]
      exact .nothing (by decide)
    · rw [created_eq hp hpublic, created_eq hs hsecret]
      exact .both
    · rw [created_eq hp hpart, created_eq hs hsecret]
      exact .publicPart n
  · rw [created_eq hs hpart]
    exact .secretPart n

theorem Leaves.secretHeld (h : Leaves fs p s keys (fs', status))
    (hne : p ≠ s) (hsnew : fs s = none) : fs' s = none ∨
      ∃ n, fs' s = some (.regular (keys.secretKey.take n)) := by
  have hwhole : keys.secretKey = keys.secretKey.take 64 := by
    rw [List.take_of_length_le keys.secretKey_length.le]
  cases h with
  | nothing => exact .inl hsnew
  | secretPart n => exact .inr ⟨n, place_self s⟩
  | publicPart n =>
    refine .inr ⟨64, ?_⟩
    rw [place_of_ne hne.symm, place_self, ← hwhole]
  | both =>
    refine .inr ⟨64, ?_⟩
    rw [place_of_ne hne.symm, place_self, ← hwhole]

/-- The public key comes second. -/
theorem Leaves.publicHeld (h : Leaves fs p s keys (fs', status))
    (hne : p ≠ s) (hpnew : fs p = none) : fs' p = none ∨
      ∃ n, fs' p = some (.regular (keys.publicKey.take n)) ∧
        fs' s = some (.regular keys.secretKey) := by
  cases h with
  | nothing => exact .inl hpnew
  | secretPart n =>
    left
    rw [place_of_ne hne, hpnew]
  | publicPart n =>
    refine .inr ⟨n, place_self p, ?_⟩
    rw [place_of_ne hne.symm, place_self]
  | both =>
    refine .inr ⟨32, ?_, ?_⟩
    · rw [place_self, List.take_of_length_le keys.publicKey_length.le]
    · rw [place_of_ne hne.symm, place_self]

theorem Leaves.done (h : Leaves fs p s keys (fs', status))
    (hne : p ≠ s) (hzero : status = some 0) : fs' p = some (.regular keys.publicKey) ∧
      fs' s = some (.regular keys.secretKey) := by
  cases h with
  | nothing h => exact absurd (Option.some.inj hzero) h
  | secretPart n => cases hzero
  | publicPart n => cases hzero
  | both => exact ⟨place_self p, by rw [place_of_ne hne.symm, place_self]⟩

theorem take_whole {data : Bytes} {n len : Nat} (hdata : data.length = len)
    (h : (data.take n).length = len) : data.take n = data := by
  rw [List.length_take, hdata] at h
  exact List.take_of_length_le (by omega)

variable {Path' Entry' : Type*} {central : KeyHost Path Entry} {worker : KeyHost Path' Entry'}
  {image : FileSystem Entry'} {ownerSignPkFile : Path'} {w : Entry'}

/-- Whatever becomes of the run that makes them, no loader takes a part of a key, a worker whose
copy of the public key loads has a central node with the secret key, and after a run that has
returned 0 both keys load. -/
theorem owner_keys_loaded (hrun : main central.names fs [program, publicFile, secretFile]
      sodiumInit keys secretCalls publicCalls = (fs', status))
    (hp : central.names publicFile = some p) (hs : central.names secretFile = some s)
    (hne : p ≠ s) (hpnew : fs p = none) (hsnew : fs s = none) {umask : UInt32}
    (hmode : central.modes s = 0o600 &&& ~~~umask) (hw : worker.names ownerSignPkFile = some w)
    (hcopy : image w = fs' p) :
    (∀ key, loadPublicKey worker image ownerSignPkFile = .ok key → key = keys.publicKey ∧
      (central.Reads s secretKeyBytes →
        loadSecretKey central fs' (some secretFile) = .ok keys.secretKey)) ∧
    (∀ key, loadSecretKey central fs' (some secretFile) = .ok key → key = keys.secretKey) ∧
    (status = some 0 →
      (worker.Reads w publicKeyBytes →
        loadPublicKey worker image ownerSignPkFile = .ok keys.publicKey) ∧
      (central.Reads s secretKeyBytes →
        loadSecretKey central fs' (some secretFile) = .ok keys.secretKey)) := by
  have hleaves : Leaves fs p s keys (fs', status) := hrun ▸ main_leaves hp hs
  have hothers : central.modes s &&& othersMode = 0 := by rw [hmode, owner_mode]
  have hsecret : fs' s = some (.regular keys.secretKey) → central.Reads s secretKeyBytes →
      loadSecretKey central fs' (some secretFile) = .ok keys.secretKey := fun hfile hreads =>
    (loadSecretKey_iff hs hfile hothers).mpr ⟨hreads, rfl, keys.secretKey_length⟩
  refine ⟨?_, ?_, ?_⟩
  · intro key hload
    cases hleaves.publicHeld hne hpnew with
    | inl habsent =>
      rw [loadPublicKey_absent hw (hcopy.trans habsent)] at hload
      cases hload
    | inr hfound =>
      obtain ⟨n, hpublic, hfile⟩ := hfound
      obtain ⟨-, rfl, hlen⟩ := (loadPublicKey_iff hw (hcopy.trans hpublic)).mp hload
      exact ⟨take_whole keys.publicKey_length hlen, hsecret hfile⟩
  · intro key hload
    cases hleaves.secretHeld hne hsnew with
    | inl habsent =>
      rw [loadSecretKey_absent hs habsent] at hload
      cases hload
    | inr hfound =>
      obtain ⟨n, hfile⟩ := hfound
      obtain ⟨-, rfl, hlen⟩ := (loadSecretKey_iff hs hfile hothers).mp hload
      exact take_whole keys.secretKey_length hlen
  · intro hzero
    obtain ⟨hpublic, hfile⟩ := hleaves.done hne hzero
    refine ⟨fun hreads => ?_, hsecret hfile⟩
    exact (loadPublicKey_iff hw (hcopy.trans hpublic)).mpr ⟨hreads, rfl, keys.publicKey_length⟩

end Keygen

def freshKeys : KeyPair :=
  ⟨List.replicate 32 0x50, List.replicate 64 0x53, List.length_replicate, List.length_replicate⟩

def plainKeyHost : KeyHost Bool Bool where
  names := some
  modes _ := 0o600
  special _ := none
  readable _ := true
  failAt _ := none

def freshRun : FileSystem Bool × Option Nat :=
  main some (fun _ => none) [true, true, false] 0 freshKeys ⟨true, [.wrote 40, .wrote 24], true, true⟩
    ⟨true, [.interrupted, .wrote 32], true, true⟩

theorem plainKeyHost_reads (e : Bool) (len : Nat) : plainKeyHost.Reads e len :=
  ⟨rfl, fun _ hfail => absurd hfail.symm (Option.some_ne_none _)⟩

theorem fresh_keys_load :
    loadPublicKey plainKeyHost freshRun.1 true = .ok freshKeys.publicKey ∧
      loadSecretKey plainKeyHost freshRun.1 (some false) = .ok freshKeys.secretKey := by
  have hrun : main plainKeyHost.names (fun _ => none) [true, true, false] 0 freshKeys
      ⟨true, [.wrote 40, .wrote 24], true, true⟩ ⟨true, [.interrupted, .wrote 32], true, true⟩ =
      (freshRun.1, freshRun.2) := rfl
  have hmode : plainKeyHost.modes false = 0o600 &&& ~~~(0o022 : UInt32) := by decide
  have hloaded := owner_keys_loaded hrun rfl rfl (by decide) rfl rfl hmode
    (show plainKeyHost.names true = some true from rfl) rfl
  have hboth := hloaded.2.2 (by decide)
  exact ⟨hboth.1 (plainKeyHost_reads _ _), hboth.2 (plainKeyHost_reads _ _)⟩

end DistributedEnclave.Cluster.KeyFiles
