import TreeConsole.Calendar.Instant
import TreeConsole.Json.Shape

/-!
# Node metadata

What a store tells of a node besides its payload: which changes made it, and when, how often its
payload and its children changed, and its size. The text form lists the entries in the order that
operators of such stores know; change numbers and the owner are in hexadecimal.

Main statement: `hexWord_of_nonneg`.
-/

namespace TreeConsole

/-- The metadata of a node. -/
structure NodeStat where
  /-- The change that created the node. -/
  czxid : Int64 := 0
  /-- The last change of its payload. -/
  mzxid : Int64 := 0
  /-- The last change of its children. -/
  pzxid : Int64 := 0
  /-- When it was created, in milliseconds. -/
  ctime : Int64 := 0
  /-- When its payload last changed, in milliseconds. -/
  mtime : Int64 := 0
  version : Int32 := 0
  cversion : Int32 := 0
  aversion : Int32 := 0
  /-- The session that owns a node which goes with it, or zero. -/
  ephemeralOwner : Int64 := 0
  dataLength : Int32 := 0
  numChildren : Int32 := 0
  deriving DecidableEq, Repr, Inhabited

namespace NodeStat

/-- A 64-bit word in hexadecimal, a negative one as its two's complement. -/
def hexWord (n : Int64) : String := String.ofList (Nat.toDigits 16 n.toUInt64.toNat)

/-- A 32-bit number in decimal. -/
def decimal (n : Int32) : String := toString n.toInt

/-- The entries of a stat with their names, in the order they are shown. -/
def entries (s : NodeStat) : List (String × String) :=
  [("cZxid", hexWord s.czxid),
    ("ctime", Instant.showMillis s.ctime.toInt),
    ("mZxid", hexWord s.mzxid),
    ("mtime", Instant.showMillis s.mtime.toInt),
    ("pZxid", hexWord s.pzxid),
    ("cversion", decimal s.cversion),
    ("dataVersion", decimal s.version),
    ("aclVersion", decimal s.aversion),
    ("ephemeralOwner", hexWord s.ephemeralOwner),
    ("dataLength", decimal s.dataLength),
    ("numChildren", decimal s.numChildren)]

/-- The text form of a stat, one entry a line. -/
def render (s : NodeStat) : String :=
  "\n".intercalate (s.entries.map fun e => e.1 ++ " = " ++ e.2)

/-- The fields of a stat as JSON, in the order of the record. -/
def fields (s : NodeStat) : List (String × Json) :=
  let wide (n : Int64) : Json := .num (.int n.toInt)
  let narrow (n : Int32) : Json := .num (.int n.toInt)
  [("czxid", wide s.czxid), ("mzxid", wide s.mzxid), ("pzxid", wide s.pzxid),
    ("ctime", wide s.ctime), ("mtime", wide s.mtime), ("version", narrow s.version),
    ("cversion", narrow s.cversion), ("aversion", narrow s.aversion),
    ("ephemeral_owner", wide s.ephemeralOwner), ("data_length", narrow s.dataLength),
    ("num_children", narrow s.numChildren)]

/-- Reads a stat from JSON. -/
def ofJson : Json → Shaped NodeStat :=
  let wide := Json.checking Json.asInt64
  let narrow := Json.checking Json.asInt32
  Json.asRecord "NodeStat"
    [("czxid", wide), ("mzxid", wide), ("pzxid", wide), ("ctime", wide), ("mtime", wide),
      ("version", narrow), ("cversion", narrow), ("aversion", narrow), ("ephemeral_owner", wide),
      ("data_length", narrow), ("num_children", narrow)]
    fun source => do
      let czxid ← source.field "czxid" 0 Json.asInt64 none
      let mzxid ← source.field "mzxid" 1 Json.asInt64 none
      let pzxid ← source.field "pzxid" 2 Json.asInt64 none
      let ctime ← source.field "ctime" 3 Json.asInt64 none
      let mtime ← source.field "mtime" 4 Json.asInt64 none
      let version ← source.field "version" 5 Json.asInt32 none
      let cversion ← source.field "cversion" 6 Json.asInt32 none
      let aversion ← source.field "aversion" 7 Json.asInt32 none
      let ephemeralOwner ← source.field "ephemeral_owner" 8 Json.asInt64 none
      let dataLength ← source.field "data_length" 9 Json.asInt32 none
      let numChildren ← source.field "num_children" 10 Json.asInt32 none
      return { czxid, mzxid, pzxid, ctime, mtime, version, cversion, aversion, ephemeralOwner,
               dataLength, numChildren }

/-- A word that is not negative is written like the natural number it is. -/
theorem hexWord_of_nonneg {n : Int64} (h : 0 ≤ n.toInt) :
    hexWord n = String.ofList (Nat.toDigits 16 n.toInt.toNat) := by
  have hn : n.toUInt64.toNat = n.toInt.toNat := by
    have hlt := Int64.toInt_lt n
    have hmod : (n.toUInt64.toNat : Int) = n.toInt % 2 ^ 64 := by
      rw [← Int64.toNat_toBitVec, Int64.toInt, BitVec.toInt_eq_toNat_bmod]
      have := n.toBitVec.isLt
      simp only [Int.bmod]
      omega
    omega
  rw [hexWord, hn]

end NodeStat
end TreeConsole
