import LinuxTla.Mount.Table

/-! The propagation side of fs/pnode.c and fs/namespace.c, after `Propagation.tla`:
every algorithm takes a table and returns the table it leaves behind. -/

namespace LinuxTla.Mount

variable {M N D S : Type} [DecidableEq M]

structure Cl where
  slave : Bool
  priv : Bool
  mkshared : Bool
  unbind : Bool
  expire : Bool
deriving DecidableEq

namespace Table

variable (L : Layout M D S) (mt : Table M N D S)

/-! ### Field mutators -/

@[simps -fullyApplied] def setGid (m : M) (g : ℕ) : Table M N D S := { mt with gid := Function.update mt.gid m g }
@[simps -fullyApplied] def setShared (m : M) (b : Bool) : Table M N D S := { mt with shared := Function.update mt.shared m b }
@[simps -fullyApplied] def setUnbind (m : M) (b : Bool) : Table M N D S := { mt with unbind := Function.update mt.unbind m b }
@[simps -fullyApplied] def setMarked (m : M) (b : Bool) : Table M N D S := { mt with marked := Function.update mt.marked m b }
@[simps -fullyApplied] def setMaster (m : M) (x : Option M) : Table M N D S := { mt with master := Function.update mt.master m x }
@[simps -fullyApplied] def setNpeer (m x : M) : Table M N D S := { mt with npeer := Function.update mt.npeer m x }
@[simps -fullyApplied] def setSlaves (m : M) (s : List M) : Table M N D S := { mt with slaves := Function.update mt.slaves m s }
@[simps! -fullyApplied] def setMntShared (m : M) : Table M N D S := (mt.setShared m true).setUnbind m false

/-- list_add(&new->mnt_share, &old->mnt_share) -/
@[simps -fullyApplied] def ringInsertAfter (old new : M) : Table M N D S :=
  { mt with npeer := Function.update (Function.update mt.npeer new (mt.npeer old)) old new }

/-- list_del_init(&m->mnt_share) -/
def ringRemove (m : M) : Option (Table M N D S) := do
  let prev ← L.chooseMnt ((mt.live L).filter fun x => mt.npeer x = m)
  return (mt.setNpeer prev (mt.npeer m)).setNpeer m m

/-- hlist_del_init(&m->mnt_slave): off whichever list the node is on. -/
@[simps -fullyApplied] def slaveDel (m : M) : Table M N D S := { mt with slaves := fun x => seqDel (mt.slaves x) m }

/-- hlist_add_head(&m->mnt_slave, &master->mnt_slave_list) -/
@[simps! -fullyApplied] def slaveAddHead (master m : M) : Table M N D S := mt.setSlaves master (m :: mt.slaves master)

/-- hlist_add_behind(&m->mnt_slave, &old->mnt_slave) -/
def slaveAddBehind (old m : M) : Table M N D S :=
  match mt.master old with
  | none => mt
  | some x => mt.setSlaves x (Lib.insertAfter (mt.slaves x) old m)

def usedGids : List ℕ := ((mt.live L).map mt.gid).filter (· ≠ 0)

/-- mnt_alloc_group_id(): the smallest unused id. -/
def newGid : Option ℕ := (List.range' 1 ((mt.live L).length + 1)).find? fun g => g ∉ mt.usedGids L

/-- invent_group_ids(): a group id for every mount of `s` without one, in this order. -/
def inventIds (s : List M) : Option (Table M N D S) :=
  s.foldlM (fun mt m => if mt.gid m = 0 then do return mt.setGid m (← mt.newGid L) else some mt) mt

/-! ### clone_mnt() -/

/-- The group id clone_mnt() gives the copy. -/
def cloneGid (old : M) (flag : Cl) : Option ℕ :=
  let gid0 := if flag.slave || flag.priv then 0 else mt.gid old
  if flag.mkshared ∧ gid0 = 0 then mt.newGid L else some gid0

/-- The new record of clone_mnt(), not linked to anything. -/
@[simps! -fullyApplied] def cloneRec (id old : M) (root : D) (gid : ℕ) : Table M N D S :=
  let mt1 := mt.fresh L id (mt.sb old) root
  { mt1 with
    shrink := Function.update mt1.shrink id (mt.shrink old)
    gid := Function.update mt1.gid id gid
    shared := Function.update mt1.shared id (gid ≠ 0)
    unbind := Function.update mt1.unbind id (L.fixCloneUnbindable && mt.unbind old && gid = 0) }

/-- clone_mnt(): group id and propagation links per the CL_* flags. -/
def cloneMnt (old : M) (root : D) (flag : Cl) : Option (Table M N D S × M) := do
  let id ← mt.newId L
  let gid ← mt.cloneGid L old flag
  let mt1 := mt.cloneRec L id old root gid
  if flag.priv then return (mt1, id)
  let mt2 := if mt1.Peers id old then mt1.ringInsertAfter old id else mt1
  if flag.slave ∧ mt.gid old ≠ 0 then return ((mt2.setMaster id (some old)).slaveAddHead old id, id)
  match mt.master old with
  | none => return (mt2, id)
  | some x => return ((mt2.setMaster id (some x)).slaveAddBehind old id, id)

/-! ### change_mnt_propagation(), bulk_make_private() -/

/-- transfer_propagation(): the slaves go to `dest`, spliced at the head of its list in
order, or become masterless. -/
@[simps -fullyApplied] def transferPropagation (m : M) (dest : Option M) : Table M N D S :=
  { mt with
    master := setOn mt.master (mt.slaves m) dest
    slaves := fun x =>
      let rest := if x = m then [] else mt.slaves x
      if dest = some x then mt.slaves m ++ rest else rest }

inductive PropType
  | shared | slave | priv | unbindable
deriving DecidableEq

/-- `m` leaves its group; the slaves go to its next peer or to its master, which is
returned. -/
def leaveGroup (m : M) : Option (Table M N D S × Option M) :=
  if mt.shared m then
    if mt.npeer m = m then
      some (((mt.setGid m 0).setShared m false).transferPropagation m (mt.master m), mt.master m)
    else do
      let mt1 := (← mt.ringRemove L m).setGid m 0
      return ((mt1.setShared m false).transferPropagation m (some (mt.npeer m)), some (mt.npeer m))
  else some (mt, mt.master m)

/-- `m`, out of its group, becomes a slave, private or unbindable. -/
def becomeType (m : M) (type : PropType) (master : Option M) : Table M N D S :=
  let mt2 := mt.slaveDel m
  if type = .slave then
    match master with
    | some x => (mt2.setMaster m (some x)).slaveAddHead x m
    | none => mt2.setMaster m none
  else (mt2.setMaster m none).setUnbind m (type = .unbindable)

def changeMntPropagation (m : M) (type : PropType) : Option (Table M N D S) :=
  if type = .shared then some (mt.setMntShared m)
  else do
    let (mt1, master) ← mt.leaveGroup L m
    return mt1.becomeType m type master

def changeType (s : List M) (type : PropType) : Option (Table M N D S) := do
  let mt0 ← (if type = .shared then mt.inventIds L s else some mt)
  s.foldlM (fun mt m => mt.changeMntPropagation L m type) mt0

/-- MOVE_MOUNT_SET_GROUP: `target` joins the group and the master of `source`. -/
def joinGroup (source target : M) : Table M N D S :=
  let mt1 := match mt.master source with
    | none => mt
    | some x => (mt.setMaster target (some x)).slaveAddBehind source target
  if mt.shared source then ((mt1.setGid target (mt.gid source)).ringInsertAfter source target).setMntShared target else mt1

/-- attach_recursive_mnt() below a shared mount: every mount of the source tree is shared. -/
@[simps -fullyApplied] def shareAll (s : List M) : Table M N D S :=
  { mt with shared := setOn mt.shared s true, unbind := setOn mt.unbind s false }

/-- trace_transfers(), one mount: `m` leaves its ring and its list and is marked; its
next peer, or its master, is where to go on. -/
def unhook (m : M) : Option (Table M N D S × Option M) := do
  let (mt0, next) ← (
    if mt.npeer m ≠ m then do
      return (((← mt.ringRemove L m).setGid m 0).setMaster m (some (mt.npeer m)), some (mt.npeer m))
    else some (if mt.shared m then mt.setGid m 0 else mt, mt.master m))
  return (((mt0.slaveDel m).setShared m false).setMarked m true, next)

/-- trace_transfers(): takes `m` and the doomed mounts its slaves would go to out of
their rings and slave lists, and returns where the slaves go. -/
def traceTransfers : ℕ → Table M N D S → M → Option (Table M N D S × Option M)
  | 0, _, _ => none
  | k + 1, mt, m => do
    let (mt1, next) ← mt.unhook L m
    match next with
    | none => return (mt1, none)
    | some x =>
      if mt1.umount x = false then return (mt1, some x)
      else if mt1.marked x then return (mt1, mt1.master x)
      else traceTransfers k mt1 x

/-- set_destinations(): points the chain of masters at the destination. -/
def setDestinations (master : Option M) : ℕ → Table M N D S → M → Option (Table M N D S)
  | 0, _, _ => none
  | k + 1, mt, m =>
    if mt.master m = master then some mt
    else do setDestinations master k (mt.setMaster m master) (← mt.master m)

def bmpFirst (s : List M) : Option (Table M N D S) :=
  s.foldlM (fun mt m =>
    if mt.marked m then some mt
    else do
      let (mt1, dest) ← traceTransfers L L.fuel mt m
      setDestinations dest L.fuel mt1 m) mt

def bmpSecond (s : List M) : Table M N D S :=
  s.foldl (fun mt m => ((mt.transferPropagation m (mt.master m)).setMaster m none).setMarked m false) mt

/-- bulk_make_private(): takes every victim out of the propagation graph. -/
def bulkMakePrivate (s : List M) : Option (Table M N D S) := do return (← mt.bmpFirst L s).bmpSecond s

/-- umount_tree() of the mounts `s`, on the propagation side. -/
def umountAll (s : List M) : Option (Table M N D S) := { mt with umount := setOn mt.umount s true }.bulkMakePrivate L s

end Table

end LinuxTla.Mount
