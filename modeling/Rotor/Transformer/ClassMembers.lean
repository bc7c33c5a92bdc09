import Rotor.Bytes

/-!
Where the members of a class are found.

One table is the class and the prototype of its instances, and the tables of a hierarchy are
chained through `__index`.  A hierarchy is the list of its classes, the derived one first; classes
are told apart by the number of classes above them.
-/

namespace Rotor.Transformer.ClassMembers

inductive Side
  | inst
  | static
  deriving DecidableEq

/-- The names in the table of every class. A member named `__index` or `new`, and a method named
`__tostring`, is refused by a diagnostic, and `constructor` by TypeScript. -/
def boilerplate : List Bytes := [str "__index", str "new", str "constructor", str "__tostring"]

structure Class where
  properties : List Bytes
  methods : List Bytes
  staticProperties : List Bytes
  staticMethods : List Bytes
  /-- The static property has been assigned a value other than `undefined`. -/
  isSet : Bytes → Bool
  plain : ∀ name ∈ properties ++ methods ++ staticProperties ++ staticMethods, name ∉ boilerplate

namespace Class

variable (cls : Class)

def declares (name : Bytes) : Side → Bool
  | .inst => name ∈ cls.properties || name ∈ cls.methods
  | .static => name ∈ cls.staticProperties || name ∈ cls.staticMethods

/-- The member is in the table of the class. -/
def has (name : Bytes) : Side → Bool
  | .inst => name ∈ cls.methods
  | .static => name ∈ cls.staticMethods || name ∈ cls.staticProperties && cls.isSet name

/-- The static properties are assigned behind the methods. -/
def entry (name : Bytes) : Option Side :=
  if cls.has name .static then some .static
  else if cls.has name .inst then some .inst
  else none

end Class

/-- What a read gives: a field of the object itself, or a member of the class at a level. -/
inductive Found
  | field
  | member (side : Side) (level : Nat)
  | undefined
  deriving DecidableEq

variable (name : Bytes)

/-- `class[name]`, and what `__index` leads to. -/
def index : List Class → Found
  | [] => .undefined
  | cls :: bases =>
    match cls.entry name with
    | some side => .member side bases.length
    | none => index bases

def readInstance (own : Bool) (classes : List Class) : Found :=
  if own then .field else index name classes

/-- TypeScript looks for methods along the prototypes. -/
def nearestMethod : List Class → Found
  | [] => .undefined
  | cls :: bases =>
    if cls.has name .inst then .member .inst bases.length else nearestMethod bases

/-- A declared property is a field of the object, which is `undefined` until it is set. -/
def nearestInstance (own : Bool) (classes : List Class) : Found :=
  if own then .field
  else if classes.any (name ∈ ·.properties) then .undefined
  else nearestMethod name classes

/-- Static members are found along the classes; a declared property is on its class, with or
without a value. -/
def nearestStatic : List Class → Found
  | [] => .undefined
  | cls :: bases =>
    if cls.declares name .static then
      if cls.has name .static then .member .static bases.length else .undefined
    else nearestStatic bases

/-- The nearest static member of the name is a property without a value. -/
def isUnset : List Class → Bool
  | [] => false
  | cls :: bases => if cls.declares name .static then !cls.has name .static else isUnset bases

def declared (side : Side) (classes : List Class) : Prop := ∃ cls ∈ classes, cls.declares name side

/-- The collisions that `transformClassLikeDeclaration` refuses. -/
def accepted : List Class → Bool
  | [] => true
  | cls :: bases =>
    (cls.methods.all fun name => (cls :: bases).all (!·.declares name .static)) &&
      (cls.staticMethods.all fun name => (cls :: bases).all (!·.declares name .inst)) &&
      accepted bases

/-- Reads on an instance, on the class and, in a method of either side, through `super`. -/
structure MembersFound (classes : List Class) : Prop where
  onInstance : ∀ name, declared name .inst classes → ∀ own,
    readInstance name own classes = nearestInstance name own classes
  onClass : ∀ name, declared name .static classes →
    index name classes = nearestStatic name classes
  onSuper : ∀ name, (∃ cls ∈ classes.tail, name ∈ cls.methods) →
    index name classes.tail = nearestMethod name classes.tail
  onStaticSuper : ∀ name, declared name .static classes.tail →
    index name classes.tail = nearestStatic name classes.tail

variable {name} {classes : List Class}

lemma declares_of_entry {cls : Class} {side : Side} (entry : cls.entry name = some side) :
    cls.declares name side := by
  cases side <;> grind [Class.entry, Class.has, Class.declares]

lemma index_eq_nearestMethod (methods : ∀ cls ∈ classes, cls.entry name ≠ some .static) :
    index name classes = nearestMethod name classes := by
  induction classes with
  | nil => rfl
  | cons cls bases ih =>
    obtain ⟨first, others⟩ := List.forall_mem_cons.mp methods
    rw [index, nearestMethod, ← ih others]
    grind [Class.entry]

lemma index_eq_undefined (absent : ∀ cls ∈ classes, cls.entry name = none) :
    index name classes = .undefined := by
  induction classes with
  | nil => rfl
  | cons cls bases ih =>
    obtain ⟨first, others⟩ := List.forall_mem_cons.mp absent
    rw [index, first, ih others]

lemma nearestStatic_unset (unset : isUnset name classes) :
    nearestStatic name classes = .undefined := by
  induction classes with
  | nil => rfl
  | cons cls bases ih => grind [nearestStatic, isUnset]

lemma index_eq_nearestStatic (statics : ∀ cls ∈ classes, cls.entry name ≠ some .inst)
    (unset : isUnset name classes → ∀ cls ∈ classes, cls.entry name = none) :
    index name classes = nearestStatic name classes := by
  by_cases isUnset' : isUnset name classes
  · rw [index_eq_undefined (unset isUnset'), nearestStatic_unset isUnset']
  · clear unset
    induction classes with
    | nil => rfl
    | cons cls bases ih =>
      obtain ⟨first, others⟩ := List.forall_mem_cons.mp statics
      grind [index, nearestStatic, isUnset, Class.entry, Class.has, Class.declares]

lemma entry_eq_none (undefined : index name classes = .undefined) :
    ∀ cls ∈ classes, cls.entry name = none := by
  induction classes with
  | nil => simp
  | cons cls bases ih =>
    rw [index] at undefined
    split at undefined
    · cases undefined
    · next absent => exact List.forall_mem_cons.mpr ⟨absent, ih undefined⟩

lemma nearestMethod_cases (name : Bytes) (classes : List Class) :
    nearestMethod name classes = .undefined ∨
      ∃ level, nearestMethod name classes = .member .inst level := by
  induction classes with
  | nil => exact .inl rfl
  | cons cls bases ih => grind [nearestMethod]

lemma nearestStatic_cases (name : Bytes) (classes : List Class) :
    nearestStatic name classes = .undefined ∨
      ∃ level, nearestStatic name classes = .member .static level := by
  induction classes with
  | nil => exact .inl rfl
  | cons cls bases ih => grind [nearestStatic]

lemma declared_of_isUnset (unset : isUnset name classes) : declared name .static classes := by
  induction classes with
  | nil => cases unset
  | cons cls bases ih =>
    by_cases here : cls.declares name .static
    · exact ⟨cls, List.mem_cons_self, here⟩
    · rw [isUnset, if_neg here] at unset
      obtain ⟨other, mem, declares⟩ := ih unset
      exact ⟨other, List.mem_cons_of_mem _ mem, declares⟩

/-- No table has a name that is a property of the instances, or is declared on both sides, and none
from a class on has one whose nearest static property is without a value. -/
structure TablesApart (classes : List Class) : Prop where
  sides : ∀ name, declared name .inst classes → declared name .static classes →
    ∀ cls ∈ classes, cls.entry name = none
  properties : ∀ name, (∃ cls ∈ classes, name ∈ cls.properties) →
    ∀ cls ∈ classes, cls.entry name = none
  unset : ∀ name, isUnset name classes → ∀ cls ∈ classes, cls.entry name = none
  unsetSuper : ∀ name, isUnset name classes.tail → ∀ cls ∈ classes.tail, cls.entry name = none

lemma TablesApart.of_found (found : MembersFound classes) : TablesApart classes where
  sides name onInstance onClass := by
    have reads := found.onInstance name onInstance false
    simp only [readInstance, nearestInstance, Bool.false_eq_true, if_false] at reads
    refine entry_eq_none ?_
    rcases nearestStatic_cases name classes with none | ⟨level, hit⟩
    · rw [found.onClass name onClass, none]
    · rw [found.onClass name onClass, hit] at reads
      rcases nearestMethod_cases name classes with none | ⟨level', other⟩ <;> grind
  properties name := by
    rintro ⟨cls, mem, isProperty⟩
    have reads := found.onInstance name ⟨cls, mem, by simp [Class.declares, isProperty]⟩ false
    have some' : classes.any (name ∈ ·.properties) = true := by
      simpa using ⟨cls, mem, isProperty⟩
    exact entry_eq_none (by simpa [readInstance, nearestInstance, some'] using reads)
  unset name isUnset' := entry_eq_none
    ((found.onClass name (declared_of_isUnset isUnset')).trans (nearestStatic_unset isUnset'))
  unsetSuper name isUnset' := entry_eq_none
    ((found.onStaticSuper name (declared_of_isUnset isUnset')).trans (nearestStatic_unset isUnset'))

lemma TablesApart.found (apart : TablesApart classes) : MembersFound classes := by
  have up : classes.tail ⊆ classes := fun _ => List.mem_of_mem_tail
  have methods (name : Bytes) (isDeclared : declared name .inst classes) :
      ∀ cls ∈ classes, cls.entry name ≠ some .static := by
    intro cls mem entry
    have none := apart.sides name isDeclared ⟨cls, mem, declares_of_entry entry⟩ cls mem
    cases none.symm.trans entry
  have statics (name : Bytes) (isDeclared : declared name .static classes) :
      ∀ cls ∈ classes, cls.entry name ≠ some .inst := by
    intro cls mem entry
    have none := apart.sides name ⟨cls, mem, declares_of_entry entry⟩ isDeclared cls mem
    cases none.symm.trans entry
  refine ⟨fun name isDeclared own => ?_, fun name isDeclared => ?_, fun name isMethod => ?_,
    fun name isDeclared => ?_⟩
  · rw [readInstance, nearestInstance]
    by_cases isProperty : classes.any (name ∈ ·.properties) = true
    · rw [if_pos isProperty, index_eq_undefined (apart.properties name (by simpa using isProperty))]
    · rw [if_neg isProperty, index_eq_nearestMethod (methods name isDeclared)]
  · exact index_eq_nearestStatic (statics name isDeclared) (apart.unset name)
  · obtain ⟨cls, mem, isMethod⟩ := isMethod
    have isDeclared : declared name .inst classes :=
      ⟨cls, up mem, by simp [Class.declares, isMethod]⟩
    exact index_eq_nearestMethod fun cls mem => methods name isDeclared cls (up mem)
  · obtain ⟨cls, mem, declares⟩ := isDeclared
    exact index_eq_nearestStatic (fun other among => statics name ⟨cls, up mem, declares⟩ other
      (up among)) (apart.unsetSuper name)

/-- `class A { static x = 1; x?: number }`. -/
def staticX : Class := ⟨[str "x"], [], [str "x"], [], fun _ => true, by decide⟩

end Rotor.Transformer.ClassMembers
