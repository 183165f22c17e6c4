import Mathlib.Data.Nat.Init

/-!
# Routing by hash

FNV-1a over the bytes of a text, and the two functions that route by it: the manager
replica of a job and the reduce partition of a key.
-/

namespace KubeMapReduce

/-- The bytes of a Go string. -/
def bytesOf (s : String) : List UInt8 := s.toUTF8.data.toList

/-- FNV-1a with 32 bits. -/
def fnv32a (bytes : List UInt8) : UInt32 :=
  bytes.foldl (fun h b => (h ^^^ b.toUInt32) * 16777619) 2166136261

/-- The replica that owns a job; `none` is the error for a replica count of zero. -/
def computeReplicaIndex (jobID : String) (totalReplicas : Nat) : Option Nat :=
  if totalReplicas = 0 then none
  else some (fnv32a (bytesOf jobID) % UInt32.ofNat totalReplicas).toNat

/-- The partition of a key among `R` reducers. -/
def hashPartition (key : String) (R : Nat) : Nat :=
  (fnv32a (bytesOf key) &&& 0x7FFFFFFF).toNat % R

theorem hashPartition_lt (key : String) {R : Nat} (h : 0 < R) : hashPartition key R < R :=
  Nat.mod_lt _ h

end KubeMapReduce
