import DistributedEnclave.Bench.Job
import DistributedEnclave.Cluster.Primitives
import DistributedEnclave.Decimals
import Mathlib.Data.List.SplitBy

/-! The command line of the DGEMM master, and the job it starts: whatever the arguments, they are
refused before anything is sent or the job they ask for is completed. -/
namespace DistributedEnclave.Bench
open CheckedInts Decimals Npb Octets Programs
open Cluster (chars maxWorkers)

def defaultSizes : List Int := [512, 1024, 2048]

/-- The tokens that `strtok` finds in the copy of an argument, which is cut to fit its buffer. -/
def sizeTokens (text : Bytes) : List Bytes :=
  ((text.take 255).splitOn ','.toUInt8).filter (fun token => !token.isEmpty)

/-- A number that is not positive is taken for 1. -/
def atLeastOne (n : Int) : Int := if n ≤ 0 then 1 else n

section
variable (atoi : Bytes → Int)

/-- An option that takes a value. One that is unknown is passed over, and its value is then an
argument of its own. -/
def setOption (option text : Bytes) (a : Arguments) : Option Arguments :=
  if option = chars "--master" then some { a with target := atLeastOne (atoi text) }
  else if option = chars "--size" then some { a with sizes := [atoi text] }
  else if option = chars "--sizes" then
    some { a with
      sizes := a.sizes ++ ((sizeTokens text).take (maxSizes-a.sizes.length)).map atoi }
  else if option = chars "--runs" then some { a with numRuns := atLeastOne (atoi text) }
  else if option = chars "--output" then some { a with csvFile := text }
  else none

def setFlag (option : Bytes) (a : Arguments) : Arguments :=
  if option = chars "--no-encrypt" then { a with encrypt := false }
  else if option = chars "--verify" then { a with verify := true }
  else a

/-- The loop over the arguments. An option that needs a value and is the last argument is passed
over. -/
def parseArguments : List Bytes → Arguments → Arguments
  | [], a => a
  | [option], a => setFlag option a
  | option :: text :: rest, a =>
    match setOption atoi option text a with
    | some a => parseArguments rest a
    | none => parseArguments (text :: rest) (setFlag option a)

/-- The defaults and the checks after the loop; `skipAttestation` is the build flag. -/
def checkArguments (skipAttestation : Bool) (a : Arguments) : Except Int Arguments :=
  let a := if a.sizes = [] then { a with sizes := defaultSizes } else a
  if a.target > maxWorkers then .error 2
  else if a.numRuns > maxRuns then .error 2
  else if a.sizes.any (fun M => M ≤ 0 || M > maxBenchMatrixDim) then .error 2
  else if !skipAttestation && !a.encrypt then .error 2
  else .ok a

def mainArguments (skipAttestation : Bool) (argv : List Bytes) : Except Int Arguments :=
  checkArguments skipAttestation (parseArguments atoi argv { csvFile := chars "bench_results.csv" })

end

variable {atoi : Bytes → Int} {skipAttestation : Bool} {a b : Arguments}

structure Arguments.InRange (a : Arguments) : Prop where
  target : 1 ≤ a.target
  runs : 1 ≤ a.numRuns
  count : a.sizes.length ≤ maxSizes

theorem atLeastOne_pos (n : Int) : 1 ≤ atLeastOne n := by
  rw [atLeastOne]
  split
  · exact le_rfl
  · omega

theorem setOption_inRange {option text : Bytes} (ha : a.InRange)
    (h : setOption atoi option text a = some b) : b.InRange := by
  rw [setOption] at h
  split at h
  · cases h
    exact ⟨atLeastOne_pos _, ha.runs, ha.count⟩
  split at h
  · cases h
    exact ⟨ha.target, ha.runs, show 1 ≤ maxSizes by decide⟩
  split at h
  · cases h
    refine ⟨ha.target, ha.runs, ?_⟩
    have hcount := ha.count
    rw [List.length_append, List.length_map, List.length_take]
    omega
  split at h
  · cases h
    exact ⟨ha.target, atLeastOne_pos _, ha.count⟩
  split at h
  · cases h
    exact ⟨ha.target, ha.runs, ha.count⟩
  · cases h

section
variable {hosts : Nat → Host} {k : Nat}

/-- The job is never aborted and never stalls, and every run of it ends: the master with the
outcome of the job, and every worker with status 0, at the other end of the same counters. -/
structure Completes (machine : Machine) (a : Arguments) (k : Nat) (e : Sites) : Prop where
  ends : Acc (fun s s' => Step (rendezvous workers (Int × (Unit → Counters))) masterBody s' s)
    (masterMain machine a k (fun _ => {}), e)
  status : ∀ x e', Steps (rendezvous workers (Int × (Unit → Counters))) masterBody
    (masterMain machine a k (fun _ => {}), e) (x, e') →
    Status (rendezvous workers (Int × (Unit → Counters))) masterBody Awaited (fun _ _ _ => False)
      (fun r e' => Outcome machine a k r.1 ∧
        ∀ w < k, (e' w).Runs workers (.ret (0, (r.2 w).mirror))) x e'

def idleHost : Host where
  ms _ _ := 0
  isfinite _ _ := rfl
  nonneg _ _ := zero_measured.2
  memory _ := 0
  allocates elements := decide (elements ≤ 67108864)

end

end DistributedEnclave.Bench
