import ByteAtlas.Directory.Instance

/-!
# The directory of instances

A `Directory` holds the live instances. At most one of them is at a location: placing another one
there gives the old one, with the stronger of the two reasons and the new budget (`Directory.add`).
Numbers are given out in order and never twice, so the order of the numbers is the order in which
the instances were made; `Directory.toList` is in this order.
-/

namespace ByteAtlas

/-- The live instances by number and by location, and the next number. -/
structure Directory where
  instances : Std.TreeMap InstanceId Instance
  byLocation : Std.TreeMap Location InstanceId Location.order
  nextId : InstanceId

namespace Directory

def empty : Directory := ⟨∅, ∅, 0⟩

instance : Inhabited Directory := ⟨empty⟩

/-! ## 1. Looking up -/

/-- The live instances in the order in which they were made. -/
def toList (d : Directory) : List Instance := d.instances.values

def size (d : Directory) : Nat := d.instances.size

def isEmpty (d : Directory) : Bool := d.instances.isEmpty

def find? (d : Directory) (id : InstanceId) : Option Instance := d.instances[id]?

/-- The instance at a location. -/
def findAt? (d : Directory) (l : Location) : Option Instance :=
  match d.byLocation[l]? with
  | some id => d.find? id
  | none => none

/-- The instance at a place in the order in which they were made. -/
def atIndex? (d : Directory) (i : Nat) : Option Instance :=
  (d.instances.entryAtIdx? i).map Prod.snd

/-- The instances of a struct, in one file or in all. -/
def instancesOf (d : Directory) (struct : String) (file : Option FileId) : List Instance :=
  d.toList.filter fun i => i.struct == struct && file.all (i.file == ·)

/-! ## 2. Changing -/

/-- Changes the properties of one instance. -/
def modify (d : Directory) (id : InstanceId) (f : Instance → Instance) : Directory :=
  { d with instances := d.instances.modify id f }

theorem find?_modify (d : Directory) (id other : InstanceId) (f : Instance → Instance) :
    (d.modify id f).find? other = if id = other then (d.find? id).map f else d.find? other := by
  simp [find?, modify, Std.TreeMap.getElem?_modify]

/-- What came of placing an instance. -/
structure Added where
  ref : InstanceRef
  /-- Whether there was none at the location before. -/
  inserted : Bool
  deriving Repr

/-- **Places an instance**, or finds the one that is there. -/
def add (d : Directory) (p : Placement) : Added × Directory :=
  match d.findAt? p.location with
  | some i => (⟨i.ref, false⟩, d.modify i.id (Instance.merge p.reason p.budget))
  | none =>
    let id := d.nextId
    (⟨⟨id, p.location⟩, true⟩,
      ⟨d.instances.insert id (.ofPlacement id p), d.byLocation.insert p.location id, id + 1⟩)

/-- A free location gets a new instance, with the next number. -/
theorem add_of_free {d : Directory} {p : Placement} (h : d.byLocation[p.location]? = none) :
    (d.add p).1 = ⟨⟨d.nextId, p.location⟩, true⟩ ∧
      (d.add p).2.findAt? p.location = some (.ofPlacement d.nextId p) := by
  simp [add, findAt?, find?, h]

/-- Removes an instance. The others keep their order. -/
def delete (d : Directory) (id : InstanceId) : Option Instance × Directory :=
  match d.find? id with
  | none => (none, d)
  | some i =>
    (some i,
      { d with instances := d.instances.erase id, byLocation := d.byLocation.erase i.location })

/-- A removed instance is gone, and no other is. -/
theorem find?_delete (d : Directory) (id other : InstanceId) :
    (d.delete id).2.find? other = if id = other then none else d.find? other := by
  by_cases h : id = other
  · subst h
    cases hd : d.find? id <;> simp [delete, hd]
    simp [find?]
  · cases hd : d.find? id <;> simp [delete, hd, h]
    simp [find?, Std.TreeMap.getElem?_erase, h]

/-- **Removes the instances that the user did not ask for**; how many there were. -/
def deleteAuto (d : Directory) : Nat × Directory :=
  let ids := (d.toList.filter fun i => !i.reason.isManual).map Instance.id
  (ids.length, ids.foldl (fun d id => (d.delete id).2) d)

end Directory

end ByteAtlas
