import BlockForge.Machine.Fault
import BlockForge.Machine.Memory
import BlockForge.Ir.Layout
import BlockForge.Proofs.Reference.Values

/-!
# The object store

Records are objects with fields by name, vectors are lists with a capacity. A computation on the store
gives a value, or stops; it may ask what the language leaves open, such as whether two texts of the same content
are one object. Objects are never taken away, so a reference is the number of its object.
-/

namespace BlockForge.Reference

open Machine (Fault maxOffset)
open BlockForge.Types (Layout Ty)

inductive Object where
  | record (name : String) (fields : List (String × Value))
  | vector (elem : Ty) (items : List Value) (capacity : Nat)
  deriving DecidableEq, Repr, Inhabited

/-- The objects by number. -/
abbrev Heap := List Object

/-- What goes wrong in a run of a program that fits its types. -/
inductive Trap where
  | outOfBounds (index size : UInt64)
  | divisionByZero (func : String)
  | nullReference
  | tooLarge (bytes : Nat)
  | stackOverflow (limit : Nat)
  deriving DecidableEq, Repr

/-- The machine's fault. -/
def Trap.fault : Trap → Fault
  | outOfBounds index size => .boundsCheck index size
  | divisionByZero func => .divisionByZero func
  | nullReference => .nullDereference
  | tooLarge bytes => .allocationTooLarge bytes
  | stackOverflow limit => .stackOverflow limit

/-- Why a computation gives no value. -/
inductive Stop where
  | trap (trap : Trap)
  /-- A loop was given up. -/
  | outOfFuel
  /-- The program does not fit its types. -/
  | stuck
  deriving DecidableEq, Repr

/-- How a computation ends, for each answer to what it asks. -/
inductive Result (α : Type) where
  | value (a : α) (heap : Heap)
  | stop (reason : Stop) (heap : Heap)
  | ask (answer : Bool → Result α)

/-- A computation on the object store. -/
def Sem (α : Type) := Heap → Result α

namespace Result

variable {α β : Type}

def bind (f : α → Sem β) : Result α → Result β
  | value a h => f a h
  | stop r h => stop r h
  | ask answer => ask fun b => (answer b).bind f

/-- What holds of every way to end. -/
def All (Q : α → Heap → Prop) (S : Stop → Heap → Prop) : Result α → Prop
  | value a h => Q a h
  | stop r h => S r h
  | ask answer => ∀ b, (answer b).All Q S

/-- One of the ways to end. -/
inductive Ends : Result α → Except Stop α → Heap → Prop
  | value {a h} : Ends (.value a h) (.ok a) h
  | stop {r h} : Ends (.stop r h) (.error r) h
  | ask {answer r h} (b : Bool) (e : Ends (answer b) r h) : Ends (.ask answer) r h

variable {Q P : α → Heap → Prop} {S T : Stop → Heap → Prop}

theorem All.imp {r : Result α} (h : r.All Q S) (hv : ∀ a h, Q a h → P a h)
    (hs : ∀ s h, S s h → T s h) : r.All P T := by
  induction r with
  | value a heap => exact hv a heap h
  | stop s heap => exact hs s heap h
  | ask answer ih => exact fun b => ih b (h b)

theorem all_bind {r : Result α} {f : α → Sem β} {R : β → Heap → Prop} :
    (r.bind f).All R S ↔ r.All (fun a h => (f a h).All R S) S := by
  induction r with
  | value a heap => exact Iff.rfl
  | stop s heap => exact Iff.rfl
  | ask answer ih => exact forall_congr' ih

/-- What holds of every way to end is known of one of them. -/
theorem all_and_ends {r : Result α} (h : r.All Q S) : r.All (fun a h => Q a h ∧ r.Ends (.ok a) h) S := by
  induction r with
  | value a heap => exact ⟨h, .value⟩
  | stop s heap => exact h
  | ask answer ih => exact fun b => (ih b (h b)).imp (fun _ _ ⟨hq, he⟩ => ⟨hq, .ask b he⟩) fun _ _ hs => hs

end Result

namespace Sem

variable {α β : Type}

instance : Monad Sem where
  pure a := fun h => .value a h
  bind x f := fun h => (x h).bind f

def stop (r : Stop) : Sem α := fun h => .stop r h

def trap (t : Trap) : Sem α := stop (.trap t)

def stuck : Sem α := stop .stuck

/-- Asks what is left open. -/
def ask : Sem Bool := fun h => .ask fun b => .value b h

/-- The object of a number. -/
def fetch (id : Nat) : Sem Object := fun h =>
  match h[id]? with
  | some o => .value o h
  | none => .stop .stuck h

def put (id : Nat) (o : Object) : Sem Unit := fun h => .value () (h.set id o)

/-- Adds an object and gives its number. -/
def create (o : Object) : Sem Nat := fun h => .value h.length (h ++ [o])

/-- Stops if so many bytes cannot be allocated. -/
def demandBytes (n : Nat) : Sem Unit := if maxOffset < n then trap (.tooLarge n) else pure ()

theorem all_bind {x : Sem α} {f : α → Sem β} {h : Heap} {R : β → Heap → Prop} {S : Stop → Heap → Prop} :
    ((x >>= f) h).All R S ↔ (x h).All (fun a h => (f a h).All R S) S := Result.all_bind

theorem bind_assoc {γ : Type} (x : Sem α) (f : α → Sem β) (k : β → Sem γ) :
    (x >>= f) >>= k = x >>= fun a => f a >>= k := by
  funext h
  show Result.bind k (Result.bind f (x h)) = Result.bind (fun a h => Result.bind k (f a h)) (x h)
  induction x h with
  | value a heap => rfl
  | stop s heap => rfl
  | ask answer ih => exact congrArg Result.ask (funext ih)

theorem pure_bind (a : α) (f : α → Sem β) : pure a >>= f = f a := rfl

theorem demandBytes_bind (n : Nat) (f : Unit → Sem α) (h : Heap) :
    (demandBytes n >>= f) h = if maxOffset < n then .stop (.trap (.tooLarge n)) h else f () h := by
  show Result.bind f (demandBytes n h) = _
  unfold demandBytes
  split <;> rfl

end Sem

/-! ### Equality -/

/-- Whether two values are the same. References are the same if they refer to one object. -/
def sameValue : Value → Value → Sem Bool
  | .int a, .int b => pure (a == b)
  | .float a, .float b => pure (Binary64.eq a b)
  | .bool a, .bool b => pure (a == b)
  | .null, .null => pure true
  | .null, .text _ | .null, .object _ | .text _, .null | .object _, .null => pure false
  | .text a, .text b => if a = b then Sem.ask else pure false
  | .object a, .object b => pure (a == b)
  | _, _ => Sem.stuck

/-! ### Records -/

/-- The bytes of a record whose fields have the sizes: each field at the next multiple of its size, and the
whole rounded up to a multiple of the largest. -/
def recordBytes (sizes : List Nat) : Nat :=
  let (stop, align) := sizes.foldl (fun (stop, align) size => (Ir.roundUp stop size + size, max align size)) (0, 1)
  Ir.roundUp stop align

/-- The record that a reference refers to. -/
def recordOf : Value → Sem (Nat × String × List (String × Value))
  | .null => Sem.trap .nullReference
  | .object id => do
    match ← Sem.fetch id with
    | .record name fields => pure (id, name, fields)
    | .vector .. => Sem.stuck
  | _ => Sem.stuck

def readField (v : Value) (name : String) : Sem Value := do
  let (_, _, fields) ← recordOf v
  match fields.lookup name with
  | some x => pure x
  | none => Sem.stuck

/-- The fields with one of them replaced. -/
def setField (name : String) (x : Value) (fields : List (String × Value)) : List (String × Value) :=
  fields.map fun f => if f.1 = name then (name, x) else f

/-! ### Vectors -/

/-- The vector that a reference refers to. -/
def vectorOf : Value → Sem (Nat × Ty × List Value × Nat)
  | .null => Sem.trap .nullReference
  | .object id => do
    match ← Sem.fetch id with
    | .vector elem items capacity => pure (id, elem, items, capacity)
    | .record .. => Sem.stuck
  | _ => Sem.stuck

section

variable (l : Layout)

/-- A new empty vector. -/
def newVector (elem : Ty) (capacity : Nat) : Sem Value := do
  if 0 < capacity then Sem.demandBytes (min (capacity * cellSize l elem) 0xffffffffffffffff)
  let id ← Sem.create (.vector elem [] capacity)
  pure (.object id)

def sizeOf (v : Value) : Sem Value := do
  let (_, _, items, _) ← vectorOf v
  pure (.int items.length)

def capacityOf (v : Value) : Sem Value := do
  let (_, _, _, capacity) ← vectorOf v
  pure (.int capacity)

/-- The trap of an index that is out of bounds. -/
def outOfBounds {α : Type} (i size : Nat) : Sem α :=
  Sem.trap (.outOfBounds (UInt64.ofNat i) (UInt64.ofNat size))

def getAt (v : Value) (i : Nat) : Sem Value := do
  let (_, _, items, _) ← vectorOf v
  match items[i]? with
  | some x => pure x
  | none => outOfBounds i items.length

def setAt (v : Value) (i : Nat) (x : Value) : Sem Unit := do
  let (id, elem, items, capacity) ← vectorOf v
  if i < items.length then Sem.put id (.vector elem (items.set i x) capacity)
  else outOfBounds i items.length

/-- Twice the capacity, or one. -/
def doubled (capacity : Nat) : Nat := max 1 (2 * capacity)

/-- The capacity with room for one more element: a full vector doubles it. -/
def makeRoom (elem : Ty) (size capacity : Nat) : Sem Nat := do
  if size < capacity then pure capacity
  else do
    Sem.demandBytes (doubled capacity * cellSize l elem)
    pure (doubled capacity)

def append (v : Value) (x : Value) : Sem Unit := do
  let (id, elem, items, capacity) ← vectorOf v
  let capacity ← makeRoom l elem items.length capacity
  Sem.put id (.vector elem (items ++ [x]) capacity)

def insertAt (v : Value) (i : Nat) (x : Value) : Sem Unit := do
  let (id, elem, items, capacity) ← vectorOf v
  if i ≤ items.length then do
    let capacity ← makeRoom l elem items.length capacity
    Sem.put id (.vector elem (items.insertIdx i x) capacity)
  else outOfBounds i items.length

def removeAt (v : Value) (i : Nat) : Sem Value := do
  let (id, elem, items, capacity) ← vectorOf v
  match items[i]? with
  | some x => do
    Sem.put id (.vector elem (items.eraseIdx i) capacity)
    pure x
  | none => outOfBounds i items.length

end

end BlockForge.Reference
