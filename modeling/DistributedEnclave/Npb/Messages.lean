import DistributedEnclave.Octets

/-! Commands and tags of the NPB data plane. -/
namespace DistributedEnclave.Npb
open DistributedEnclave.Octets

def tagNpbCmd : Int32 := 130

def cmdNpbStart : Int32 := 1
def cmdNpbDone : Int32 := 3

structure NpbCmd where
  cmd : Int32 := 0
  workload : Int32 := 0
  encryptData : Int32 := 0
  numRuns : Int32 := 0
  epPairs : Int64 := 0
  cgRows : Int32 := 0
  cgRowStart : Int32 := 0
  cgRowCount : Int32 := 0
  cgN : Int32 := 0
  cgNzpc : Int32 := 0
  cgIters : Int32 := 0
  streamArrayMib : UInt32 := 0
  streamWarmup : UInt32 := 0
  randomMib : UInt32 := 0
  randomAccesses : UInt64 := 0
  randomWarmupAccesses : UInt64 := 0
  vmapMib : UInt32 := 0
  taskBytes : UInt32 := 0
  taskCount : UInt64 := 0
  taskIters : UInt64 := 0
  deriving DecidableEq

end DistributedEnclave.Npb
