-- The hash map of the binder library: an array of chains, found by some bits of the
-- hash of a key. A chain is here the list that the next pointers of its entries make,
-- and a place in it the number of entries before.
import SystemBinder.BinderString

open prog

namespace system_binder

inductive HashmapInsertStrategy
  | HASHMAP_ADD
  | HASHMAP_SET
  | HASHMAP_UPDATE
  | HASHMAP_APPEND
deriving DecidableEq, Repr

/-- `HashMap_Entry` -/
structure HashMapEntry where
  key : Long
  value : Long
deriving DecidableEq, Repr

/-- `HashMapBase`. `buckets` is nothing while the pointer is NULL. -/
structure HashMapBase where
  hash : Long → BitVec 64
  equal : Long → Long → Bool
  buckets : Option (List (List HashMapEntry))
  capacity : Nat
  cap_bits : Nat
  size : Nat

/-- A map and the allocator: `memory n` says whether request `n` is granted. -/
structure MapState where
  map : HashMapBase
  memory : Nat → Bool
  requests : Nat

def HASHMAP_MIN_CAP_BITS : Nat := 2

/-- `sizeof(new_buckets[0])` -/
def POINTER_SIZE : Nat := 8

/-- `hash_bits` of a 64-bit process: the upper `bits` bits of the shuffled hash. -/
def hash_bits (h : BitVec 64) (bits : Nat) : Nat :=
  if bits = 0 then 0 else ((h * 11400714819323198485#64) >>> (64 - bits)).toNat

/-- `str_hash` of the bytes before the NUL. -/
def str_hash (s : List UInt8) : BitVec 64 :=
  s.foldl (fun h b => h * 31 + BitVec.ofNat 64 b.toNat) 0

namespace HashMapBase

/-- `HashMapBase_ctor`: no buckets, and the key is its own hash. -/
def ctor : HashMapBase where
  hash := fun key => key
  equal := fun key1 key2 => key1 == key2
  buckets := none
  capacity := 0
  cap_bits := 0
  size := 0

/-- `HashMap_String_ctor`: a key is the address of a String, and `strings` says what stands
there. -/
def stringCtor (strings : Long → BinderString) : HashMapBase where
  hash := fun key => str_hash ((strings key).mData.takeWhile (· ≠ 0))
  equal := fun key1 key2 =>
    (strings key1).mData.takeWhile (· ≠ 0) == (strings key2).mData.takeWhile (· ≠ 0)
  buckets := none
  capacity := 0
  cap_bits := 0
  size := 0

/-- The chains, none for a NULL array. -/
def chains (this : HashMapBase) : List (List HashMapEntry) := this.buckets.getD []

/-! ## Reaching the state -/

def thisMap : Prog MapState Fault HashMapBase := fun s => .ok (s.map, s)

def update (f : HashMapBase → HashMapBase) : Prog MapState Fault Unit := fun s =>
  .ok ((), { s with map := f s.map })

/-- `malloc` and `calloc`: `n` objects of `size` bytes, none where `size_t` cannot say how
many bytes these are. -/
def allocated (n size : Nat) : Prog MapState Fault Bool := fun s =>
  .ok (decide (n * size ≤ SIZE_MAX) && s.memory s.requests, { s with requests := s.requests + 1 })

/-- Reads `this->buckets[h]`. -/
def bucket (h : Nat) : Prog MapState Fault (List HashMapEntry) := fun s =>
  match s.map.buckets with
  | none => .error .nullPointer
  | some buckets =>
    match buckets[h]? with
    | none => .error .loadOutside
    | some chain => .ok (chain, s)

/-- Relinks the chain at `this->buckets[h]`. -/
def relink (h : Nat) (f : List HashMapEntry → List HashMapEntry) : Prog MapState Fault Unit := do
  let chain ← bucket h
  update fun this => { this with buckets := some (this.chains.set h (f chain)) }

/-- `HashMap_for_each_entry_safe`, with what the body carries along. A body may take the entry
that it is given out of its chain: the next one was read before. -/
def forEachEntry {β : Type} (body : β → HashMapEntry → Prog MapState Fault β) (b : β) :
    Prog MapState Fault β := do
  let this ← thisMap
  (List.range this.capacity).foldlM (fun b bkt => do
    let chain ← bucket bkt
    chain.foldlM body b) b

/-! ## The table -/

/-- `hashmap_needs_to_grow` -/
def hashmap_needs_to_grow (this : HashMapBase) : Bool :=
  this.capacity == 0 || decide (this.capacity < (this.size + 1) % 2 ^ 64 * 4 % 2 ^ 64 / 3)

/-- The loop of `hashmap_find_entry` along a chain: the place of the entry found, and it. -/
def findIn (equal : Long → Long → Bool) (key : Long) :
    List HashMapEntry → Option (Nat × HashMapEntry)
  | [] => none
  | cur :: next =>
    if equal cur.key key = true then some (0, cur)
    else (findIn equal key next).map fun found => (found.1 + 1, found.2)

/-- `hashmap_find_entry` -/
def hashmap_find_entry (key : Long) (hash : Nat) :
    Prog MapState Fault (Option (Nat × HashMapEntry)) := do
  let this ← thisMap
  if this.buckets = none then pure none
  else do
    let chain ← bucket hash
    pure (findIn this.equal key chain)

/-- `hashmap_add_entry` at `&buckets[h]` -/
def hashmap_add_entry (buckets : List (List HashMapEntry)) (h : Nat) (entry : HashMapEntry) :
    Prog MapState Fault (List (List HashMapEntry)) :=
  match buckets[h]? with
  | none => fault .storeOutside
  | some chain => pure (buckets.set h (entry :: chain))

/-- `hashmap_grow` -/
def hashmap_grow : Prog MapState Fault Int := do
  let this ← thisMap
  let new_cap_bits :=
    if this.cap_bits + 1 < HASHMAP_MIN_CAP_BITS then HASHMAP_MIN_CAP_BITS else this.cap_bits + 1
  let new_cap := 2 ^ new_cap_bits
  let ok ← allocated new_cap POINTER_SIZE
  if ok = true then do
    let new_buckets ← forEachEntry (fun new_buckets cur =>
      hashmap_add_entry new_buckets (hash_bits (this.hash cur.key) new_cap_bits) cur)
      (List.replicate new_cap [])
    update fun this => { this with
      capacity := new_cap, cap_bits := new_cap_bits, buckets := some new_buckets }
    pure 0
  else pure (-ENOMEM)

/-! ## The functions of a map -/

/-- The end of `HashMapBase_insert`: a new entry. -/
def insertEntry (key value : Long) : Prog MapState Fault Int := do
  let this ← thisMap
  let h := hash_bits (this.hash key) this.cap_bits
  let ok ← allocated 1 (3 * POINTER_SIZE)
  if ok = true then do
    relink h fun chain => ⟨key, value⟩ :: chain
    update fun this => { this with size := (this.size + 1) % 2 ^ 64 }
    pure 0
  else pure (-ENOMEM)

/-- The part of `HashMapBase_insert` after the search. -/
def insertNew (key value : Long) (strategy : HashmapInsertStrategy) : Prog MapState Fault Int := do
  let this ← thisMap
  if strategy = .HASHMAP_UPDATE then pure (-ENOENT)
  else if this.hashmap_needs_to_grow = true then do
    let err ← hashmap_grow
    if err ≠ 0 then pure err else insertEntry key value
  else insertEntry key value

/-- `HashMapBase_insert`: the result, and what it stores through `old_key` and `old_value`. -/
def insert (key value : Long) (strategy : HashmapInsertStrategy) :
    Prog MapState Fault (Int × Long × Long) := do
  let this ← thisMap
  let h := hash_bits (this.hash key) this.cap_bits
  let found ← if strategy = .HASHMAP_APPEND then pure none else hashmap_find_entry key h
  match found with
  | none => do
    let err ← insertNew key value strategy
    pure (err, 0, 0)
  | some (place, entry) =>
    match strategy with
    | .HASHMAP_SET | .HASHMAP_UPDATE => do
      relink h fun chain => chain.set place ⟨key, value⟩
      pure (0, entry.key, entry.value)
    | .HASHMAP_ADD => pure (-EEXIST, entry.key, entry.value)
    | .HASHMAP_APPEND => do
      let err ← insertNew key value strategy
      pure (err, entry.key, entry.value)

/-- `HashMapBase_delete`: nothing for false, else the old key and value. -/
def delete (key : Long) : Prog MapState Fault (Option (Long × Long)) := do
  let this ← thisMap
  let h := hash_bits (this.hash key) this.cap_bits
  let found ← hashmap_find_entry key h
  match found with
  | none => pure none
  | some (place, entry) => do
    relink h fun chain => chain.eraseIdx place
    update fun this => { this with size := (this.size + 2 ^ 64 - 1) % 2 ^ 64 }
    pure (some (entry.key, entry.value))

/-- `HashMapBase_find`: nothing for false, else the value. -/
def find (key : Long) : Prog MapState Fault (Option Long) := do
  let this ← thisMap
  let found ← hashmap_find_entry key (hash_bits (this.hash key) this.cap_bits)
  pure (found.map fun p => p.2.value)

/-- `HashMapBase_iterator`: the entries that the callback is called with, in order. -/
def iterator : Prog MapState Fault (List HashMapEntry) :=
  forEachEntry (fun seen cur => pure (seen ++ [cur])) []

/-- `HashMapBase_clear` -/
def clear : Prog MapState Fault Unit :=
  forEachEntry (fun _ cur => do
    let _ ← delete cur.key
    pure ()) ()

end HashMapBase

namespace HashMap

/-- `HashMap_get`: 0 where nothing stands under the key. -/
def get (key : Long) : Prog MapState Fault Long := do
  match ← HashMapBase.find key with
  | some value => pure value
  | none => pure 0

/-- `HashMap_put`. It adds: what stands under the key stays. -/
def put (key value : Long) : Prog MapState Fault Int := do
  let (err, _, _) ← HashMapBase.insert key value .HASHMAP_ADD
  if err < 0 then pure STATUS_INVALID_OPERATION else pure STATUS_OK

/-- `HashMap_erase`. It asks for the value, and takes one value for "not found". -/
def erase (key : Long) : Prog MapState Fault Int := do
  let value ← get key
  if value ≠ BitVec.ofInt 64 STATUS_NAME_NOT_FOUND then do
    let _ ← HashMapBase.delete key
    pure STATUS_OK
  else pure STATUS_NAME_NOT_FOUND

/-- `HashMap_find`: the status, and what it stores through `value`. -/
def find (key : Long) : Prog MapState Fault (Int × Option Long) := do
  match ← HashMapBase.find key with
  | some value => pure (STATUS_OK, some value)
  | none => pure (STATUS_NAME_NOT_FOUND, none)

/-- `HashMap_insert`, which does what `HashMap_put` does. -/
def insert (key value : Long) : Prog MapState Fault Int := do
  let (err, _, _) ← HashMapBase.insert key value .HASHMAP_ADD
  if err < 0 then pure STATUS_INVALID_OPERATION else pure STATUS_OK

end HashMap

end system_binder
