import StackVm.Machine.Basic

/-! A fresh machine and the placing of code units.  A fresh machine holds the builtin functions
and the exception classes in its builtin namespace, each builtin function stored once, so that
every lookup of a builtin name gives the same object.  A code unit placed in the store gets its
string, wide-integer and byte-string pool values placed once, and a profile of its own. -/

namespace StackVm

namespace Machine

/-- A fresh machine with a configuration. -/
def boot (config : Config) (fastPaths : Bool) : Machine :=
  let start : Heap × Array (String × Value) := ({}, #[])
  let (heap, natives) := Builtin.all.foldl
    (fun (h, acc) b =>
      let (h, a) := h.alloc (.native (.builtin b))
      (h, acc.push (b.name, .ref a))) start
  let classes := (ExcType.all.map fun t => (t.name, Value.excType t)).toArray
  { heap, config, fastPaths, builtins := natives ++ classes }

end Machine

namespace Vm

/-- Places a code unit in the store with its pool values and a fresh profile. -/
def newCode (u : CodeUnit) : Vm Addr := do
  let strings ← u.strings.mapM str
  let bigInts ← u.bigInts.mapM int
  let bytes ← u.bytes.mapM fun b => return .ref (← alloc (.bytes b))
  let profile ← modifyGet fun m =>
    let p := m.profiles.size
    (p, { m with profiles := m.profiles.push (Profile.new u.bytecode.size) })
  alloc (.code { unit := u, strings, bigInts, bytes, profile })

end Vm

/-- Whether a value is a code unit in the store. -/
def Heap.isCode (h : Heap) : Value → Bool
  | .ref a => match h.get? a with
    | some (.code _) => true
    | _ => false
  | _ => false

end StackVm
