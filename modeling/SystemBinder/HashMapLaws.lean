-- The laws of the hash map: every entry stands in the bucket of its hash, no key stands
-- twice, and a run of calls answers as a finite map does.
import SystemBinder.FiniteMap
import SystemBinder.HashMap

open prog finite_map

namespace system_binder

/-- `hash` gives equal hashes to keys that `equal` takes for the same. -/
structure HashLaws (hash : Long → BitVec 64) (equal : Long → Long → Bool) : Prop where
  lawful : Lawful equal
  congr : ∀ {k j}, equal k j = true → hash k = hash j

theorem hash_bits_lt {h : BitVec 64} {bits : Nat} (hb : bits ≤ 64) : hash_bits h bits < 2 ^ bits := by
  unfold hash_bits
  split
  · rename_i h0
    subst h0
    decide
  · rw [BitVec.toNat_ushiftRight, Nat.shiftRight_eq_div_pow]
    have hlt := (h * 11400714819323198485#64).isLt
    apply Nat.div_lt_of_lt_mul
    rw [← Nat.pow_add]
    have hsum : 64 - bits + bits = 64 := by omega
    rw [hsum]
    exact hlt

namespace HashMapBase

theorem ctor_laws : HashLaws ctor.hash ctor.equal where
  lawful :=
    { refl := fun k => by simp [ctor]
      symm := fun h => by simpa [ctor] using (beq_iff_eq.mp h).symm
      trans := fun h h' => by
        have h1 := beq_iff_eq.mp h
        have h2 := beq_iff_eq.mp h'
        simpa [ctor] using h1.trans h2 }
  congr := fun h => beq_iff_eq.mp h

theorem stringCtor_laws (strings : Long → BinderString) :
    HashLaws (stringCtor strings).hash (stringCtor strings).equal where
  lawful :=
    { refl := fun _ => beq_self_eq_true _
      symm := fun h => beq_iff_eq.mpr (beq_iff_eq.mp h).symm
      trans := fun h h' => beq_iff_eq.mpr ((beq_iff_eq.mp h).trans (beq_iff_eq.mp h')) }
  congr := fun h => congrArg str_hash (beq_iff_eq.mp h)

/-! ## The invariant -/

/-- The entries, bucket by bucket. -/
def entries (this : HashMapBase) : List HashMapEntry := this.chains.flatten

/-- Every entry of a table with `2 ^ bits` buckets stands in the bucket of its hash. -/
def Placed (hash : Long → BitVec 64) (bits : Nat) (chains : List (List HashMapEntry)) : Prop :=
  ∀ i chain, chains[i]? = some chain → ∀ e ∈ chain, hash_bits (hash e.key) bits = i

/-- A table between two calls. -/
structure Holds (this : HashMapBase) : Prop where
  shape : this.buckets = none ∧ this.capacity = 0 ∧ this.cap_bits = 0 ∨
    this.buckets ≠ none ∧ this.capacity = 2 ^ this.cap_bits ∧ 2 ≤ this.cap_bits
  bits : this.cap_bits ≤ 60
  length : this.chains.length = this.capacity
  placed : Placed this.hash this.cap_bits this.chains
  differ : KeysDiffer HashMapEntry.key this.equal this.entries
  count : this.size = this.entries.length
  load : this.size ≤ this.capacity

variable {this : HashMapBase} {s : MapState} {E : Fault → Prop}

theorem Holds.capacity_le (h : this.Holds) : this.capacity ≤ 2 ^ 60 := by
  rcases h.shape with ⟨-, hcap, -⟩ | ⟨-, hcap, -⟩
  · rw [hcap]
    decide
  · rw [hcap]
    exact Nat.pow_le_pow_right (by decide) h.bits

/-- A table that is there has the bucket of every hash. -/
theorem Holds.hash_lt (h : this.Holds) (hb : this.buckets ≠ none) (key : Long) :
    hash_bits (this.hash key) this.cap_bits < this.chains.length := by
  rcases h.shape with ⟨hnone, -⟩ | ⟨-, hcap, -⟩
  · exact absurd hnone hb
  · rw [h.length, hcap]
    have hbits := h.bits
    exact hash_bits_lt (by omega)

theorem Holds.entries_of_null (h : this.buckets = none) : this.entries = [] := by
  unfold entries chains
  rw [h]
  rfl

/-- Before the first insertion. -/
theorem holds_of_empty (hb : this.buckets = none) (hc : this.capacity = 0) (hk : this.cap_bits = 0)
    (hs : this.size = 0) : this.Holds := by
  have hchains : this.chains = [] := by
    unfold chains
    rw [hb]
    rfl
  have hentries := Holds.entries_of_null hb
  refine ⟨.inl ⟨hb, hc, hk⟩, by omega, ?_, ?_, ?_, ?_, by omega⟩
  · rw [hchains, hc]
    rfl
  · intro i chain hi
    rw [hchains] at hi
    cases hi
  · rw [hentries]
    exact List.Pairwise.nil
  · rw [hentries, hs]
    rfl

/-! ## Chains -/

/-- The entries are those of one chain and those of the others. -/
theorem flatten_perm {chains : List (List HashMapEntry)} {h : Nat} {chain : List HashMapEntry}
    (hc : chains[h]? = some chain) : chains.flatten.Perm (chain ++ (chains.eraseIdx h).flatten) := by
  obtain ⟨hlt, hget⟩ := List.getElem?_eq_some_iff.mp hc
  have hperm := List.getElem_cons_eraseIdx_perm hlt
  rw [hget] at hperm
  exact hperm.symm.flatten

/-- With another chain in its place, the entries of the others stay. -/
theorem flatten_set_perm {chains : List (List HashMapEntry)} {h : Nat}
    {chain : List HashMapEntry} (hlt : h < chains.length) :
    (chains.set h chain).flatten.Perm (chain ++ (chains.eraseIdx h).flatten) := by
  have hc : (chains.set h chain)[h]? = some chain := by
    rw [List.getElem?_set_self hlt]
  have hperm := flatten_perm hc
  rwa [List.eraseIdx_set_eq] at hperm

/-- Placed chains with one of them replaced, when the new one is made of entries of its hash. -/
theorem Placed.set {hash : Long → BitVec 64} {bits h : Nat} {chains : List (List HashMapEntry)}
    {chain : List HashMapEntry} (hp : Placed hash bits chains)
    (hnew : ∀ e ∈ chain, hash_bits (hash e.key) bits = h) : Placed hash bits (chains.set h chain) := by
  intro i c hi e he
  rw [List.getElem?_set] at hi
  split at hi
  · rename_i heq
    subst heq
    split at hi
    · cases hi
      exact hnew e he
    · cases hi
  · exact hp i c hi e he

theorem findIn_some {equal : Long → Long → Bool} {key : Long} {chain : List HashMapEntry}
    {place : Nat} {e : HashMapEntry} (h : findIn equal key chain = some (place, e)) :
    chain[place]? = some e ∧ equal e.key key = true := by
  induction chain generalizing place with
  | nil => cases h
  | cons cur next ih =>
    unfold findIn at h
    split at h
    · rename_i hsame
      cases h
      exact ⟨rfl, hsame⟩
    · cases hrest : findIn equal key next with
      | none =>
        rw [hrest] at h
        cases h
      | some found =>
        rw [hrest] at h
        cases h
        exact ih hrest

theorem findIn_none {equal : Long → Long → Bool} {key : Long} {chain : List HashMapEntry}
    (h : findIn equal key chain = none) : ∀ e ∈ chain, equal e.key key = false := by
  induction chain with
  | nil =>
    intro e he
    cases he
  | cons cur next ih =>
    unfold findIn at h
    split at h
    · cases h
    · rename_i hfar
      intro e he
      rcases List.mem_cons.mp he with rfl | hnext
      · simpa using hfar
      · exact ih (Option.map_eq_none_iff.mp h) e hnext

/-! ## What the helpers do -/

/-- Where the search for a key in its chain ends. -/
def located (this : HashMapBase) (key : Long) : Option (Nat × HashMapEntry) :=
  findIn this.equal key (this.chains.getD (hash_bits (this.hash key) this.cap_bits) [])

@[simp] theorem wp_thisMap {Q : HashMapBase → MapState → Prop} :
    wp thisMap Q E s ↔ Q s.map s := Iff.rfl

@[simp] theorem wp_update {Q : Unit → MapState → Prop} {f : HashMapBase → HashMapBase} :
    wp (update f) Q E s ↔ Q () { s with map := f s.map } := Iff.rfl

@[simp] theorem wp_allocated {Q : Bool → MapState → Prop} {n size : Nat} :
    wp (allocated n size) Q E s ↔
      Q (decide (n * size ≤ SIZE_MAX) && s.memory s.requests)
        { s with requests := s.requests + 1 } := Iff.rfl

theorem bucket.spec {Q : List HashMapEntry → MapState → Prop} {h : Nat}
    {chain : List HashMapEntry} (hc : s.map.chains[h]? = some chain) :
    wp (bucket h) Q E s ↔ Q chain s := by
  unfold chains at hc
  unfold bucket wp
  dsimp only
  cases hb : s.map.buckets with
  | none =>
    rw [hb] at hc
    cases hc
  | some buckets =>
    rw [hb] at hc
    have hget : buckets[h]? = some chain := hc
    simp only [hget]

theorem relink.spec {Q : Unit → MapState → Prop} {h : Nat} {chain : List HashMapEntry}
    {f : List HashMapEntry → List HashMapEntry} (hc : s.map.chains[h]? = some chain) :
    wp (relink h f) Q E s ↔
      Q () { s with map := { s.map with buckets := some (s.map.chains.set h (f chain)) } } := by
  unfold relink
  rw [wp_bind, bucket.spec hc, wp_update]

theorem hashmap_find_entry.spec {Q : Option (Nat × HashMapEntry) → MapState → Prop} {key : Long}
    (hs : s.map.Holds) :
    wp (hashmap_find_entry key (hash_bits (s.map.hash key) s.map.cap_bits)) Q E s ↔
      Q (s.map.located key) s := by
  unfold hashmap_find_entry located
  rw [wp_bind, wp_thisMap]
  by_cases hb : s.map.buckets = none
  · have hchains : s.map.chains = [] := by
      unfold chains
      rw [hb]
      rfl
    rw [if_pos hb, wp_pure, hchains]
    exact Iff.rfl
  · have hlt := hs.hash_lt hb key
    rw [if_neg hb, wp_bind, bucket.spec (List.getElem?_eq_getElem hlt), wp_pure,
      List.getD_eq_getElem _ _ hlt]

/-- The entry that the search ends at, with its chain. -/
theorem Holds.located_some (h : this.Holds) {key : Long} {place : Nat} {e : HashMapEntry}
    (hl : this.located key = some (place, e)) :
    ∃ chain, this.chains[hash_bits (this.hash key) this.cap_bits]? = some chain ∧
      chain[place]? = some e ∧ this.equal e.key key = true := by
  unfold located at hl
  by_cases hb : this.buckets = none
  · have hchains : this.chains = [] := by
      unfold chains
      rw [hb]
      rfl
    rw [hchains] at hl
    cases hl
  · have hlt := h.hash_lt hb key
    rw [List.getD_eq_getElem _ _ hlt] at hl
    exact ⟨_, List.getElem?_eq_getElem hlt, findIn_some hl⟩

/-- A key that the search does not find is not in the table. -/
theorem Holds.located_none (h : this.Holds) (laws : HashLaws this.hash this.equal) {key : Long}
    (hl : this.located key = none) : lookup HashMapEntry.key this.equal this.entries key = none := by
  rw [lookup_eq_none]
  intro e he
  obtain ⟨chain, hchain, hmem⟩ := List.mem_flatten.mp he
  obtain ⟨i, hi⟩ := List.getElem?_of_mem hchain
  cases hsame : this.equal e.key key with
  | false => rfl
  | true =>
    have hhome := h.placed i chain hi e hmem
    rw [laws.congr hsame] at hhome
    unfold located at hl
    rw [hhome, List.getD_eq_getElem?_getD, hi] at hl
    rw [findIn_none hl e hmem] at hsame
    cases hsame

/-- A loop over the entries whose body leaves the map alone goes through them bucket by bucket. -/
theorem forEachEntry.spec {β : Type} {f : β → HashMapEntry → Prog MapState Fault β}
    (hs : s.map.Holds) (I : List HashMapEntry → β → Prop)
    (hstep : ∀ done e b, I done b → wp (f b e) (fun b' s' => s' = s ∧ I (done ++ [e]) b') E s)
    {b : β} (h0 : I [] b) :
    wp (forEachEntry f b) (fun b' s' => s' = s ∧ I s.map.entries b') E s := by
  unfold forEachEntry
  rw [wp_bind, wp_thisMap]
  refine wp_imp (wp_foldlM_range
    (fun bkt b s' => s' = s ∧ I (s.map.chains.take bkt).flatten b) ?_ ⟨rfl, h0⟩) ?_
  · rintro bkt b s' hlt ⟨rfl, hdone⟩
    rw [← hs.length] at hlt
    rw [wp_bind, bucket.spec (List.getElem?_eq_getElem hlt)]
    have hinner := wp_foldlM (E := E) (l := s'.map.chains[bkt]) (f := f)
      (fun seen b t => t = s' ∧ I ((s'.map.chains.take bkt).flatten ++ seen) b)
      (b := b) (s := s')
    refine wp_imp (hinner ?_ ⟨rfl, by rwa [List.append_nil]⟩) ?_
    · rintro seen e rest' b1 t - ⟨rfl, hseen⟩
      rw [← List.append_assoc]
      exact hstep _ e b1 hseen
    · rintro b1 t ⟨rfl, hseen⟩
      refine ⟨rfl, ?_⟩
      rw [List.take_succ_eq_append_getElem hlt, List.flatten_append, List.flatten_singleton]
      exact hseen
  · rintro b' s' ⟨rfl, hall⟩
    rw [← hs.length, List.take_length] at hall
    exact ⟨rfl, hall⟩

/-- The iterator goes through the entries. -/
theorem iterator.spec (hs : s.map.Holds) :
    wp iterator (fun seen s' => s' = s ∧ seen = s.map.entries) E s := by
  apply forEachEntry.spec hs (fun done seen => seen = done) _ rfl
  intro done e seen hseen
  rw [wp_pure, hseen]
  exact ⟨rfl, rfl⟩

/-- An entry added to the bucket of its hash. -/
theorem hashmap_add_entry.spec {hash : Long → BitVec 64} {bits : Nat}
    {buckets : List (List HashMapEntry)} {e : HashMapEntry} (hlen : buckets.length = 2 ^ bits)
    (hbits : bits ≤ 64) (hp : Placed hash bits buckets) :
    wp (hashmap_add_entry buckets (hash_bits (hash e.key) bits) e) (fun buckets' s' => s' = s ∧
      buckets'.length = 2 ^ bits ∧ Placed hash bits buckets' ∧
      buckets'.flatten.Perm (e :: buckets.flatten)) E s := by
  have hlt : hash_bits (hash e.key) bits < buckets.length := by
    rw [hlen]
    exact hash_bits_lt hbits
  have hc := List.getElem?_eq_getElem hlt
  unfold hashmap_add_entry
  rw [hc]
  simp only [wp_pure]
  refine ⟨trivial, by rw [List.length_set, hlen], ?_, ?_⟩
  · apply hp.set
    intro d hd
    rcases List.mem_cons.mp hd with rfl | hold
    · rfl
    · exact hp _ _ hc d hold
  · exact (flatten_set_perm hlt).trans ((flatten_perm hc).symm.cons e)

/-! ## A table as a finite map -/

/-- The table holds what the finite map `p` does. -/
structure Represents (hash : Long → BitVec 64) (equal : Long → Long → Bool)
    (p : List HashMapEntry) (this : HashMapBase) : Prop where
  hash_eq : this.hash = hash
  equal_eq : this.equal = equal
  holds : this.Holds
  same : this.entries.Perm p

variable {hash : Long → BitVec 64} {equal : Long → Long → Bool} {p : List HashMapEntry}
  {key value : Long}

theorem Represents.differ (r : Represents hash equal p this) (laws : HashLaws hash equal) :
    KeysDiffer HashMapEntry.key equal p := by
  have h := r.holds.differ
  rw [r.equal_eq] at h
  exact h.perm laws.lawful r.same

theorem Represents.size (r : Represents hash equal p this) : this.size = p.length := by
  rw [r.holds.count, r.same.length_eq]

theorem Represents.laws (r : Represents hash equal p this) (laws : HashLaws hash equal) :
    HashLaws this.hash this.equal := by
  rw [r.hash_eq, r.equal_eq]
  exact laws

/-- What the search finds is what the finite map has under the key. -/
theorem Represents.finds (r : Represents hash equal p this) (laws : HashLaws hash equal)
    (key : Long) :
    (this.located key).map Prod.snd = lookup HashMapEntry.key equal p key := by
  have hsame : lookup HashMapEntry.key equal p key =
      lookup HashMapEntry.key equal this.entries key :=
    (lookup_perm laws.lawful r.same.symm (r.differ laws))
  rw [hsame]
  cases hl : this.located key with
  | none =>
    have hnone := r.holds.located_none (r.laws laws) hl
    rw [r.equal_eq] at hnone
    rw [hnone]
    rfl
  | some found =>
    obtain ⟨place, e⟩ := found
    obtain ⟨chain, hchain, hplace, heq⟩ := r.holds.located_some hl
    have hmem : e ∈ this.entries :=
      List.mem_flatten.mpr ⟨chain, List.mem_of_getElem? hchain, List.mem_of_getElem? hplace⟩
    have hdiffer := r.holds.differ
    rw [r.equal_eq] at heq hdiffer
    exact ((lookup_eq_some laws.lawful hdiffer).mpr ⟨hmem, heq⟩).symm

/-- Every request is granted, and the buckets are not too many to be counted when there are twice
as many. -/
def Plenty (s : MapState) : Prop := (∀ n, s.memory n = true) ∧ s.map.cap_bits < 60

/-- Twice the buckets are more than `size_t` can say the bytes of. -/
def TooManyBuckets (this : HashMapBase) : Prop := SIZE_MAX < 2 ^ (this.cap_bits + 1) * POINTER_SIZE

/-- A request that was made from `s` to `s'` was refused: the allocator had nothing for it, or it
was for buckets that `size_t` cannot count. -/
def Refused (s s' : MapState) : Prop :=
  (∃ n, s.requests ≤ n ∧ n < s'.requests ∧ s.memory n = false) ∨
    s.map.hashmap_needs_to_grow = true ∧ s.map.TooManyBuckets

theorem Plenty.not_refused {s s' : MapState} (h : Plenty s) : ¬Refused s s' := by
  rintro (⟨n, -, -, hn⟩ | ⟨-, hmany⟩)
  · rw [h.1 n] at hn
    cases hn
  · have hpow : 2 ^ (s.map.cap_bits + 1) ≤ 2 ^ 60 := Nat.pow_le_pow_right (by decide) h.2
    unfold TooManyBuckets POINTER_SIZE SIZE_MAX at hmany
    omega

/-- From `s` to `s'` the allocator was asked `n` times. -/
structure Asked (n : Nat) (s s' : MapState) : Prop where
  memory : s'.memory = s.memory
  requests : s'.requests = s.requests + n

/-- Growing moves every entry to the bucket that the longer hash names. It fails only where its
request is refused. -/
theorem hashmap_grow.spec (r : Represents hash equal p s.map) (laws : HashLaws hash equal) :
    wp hashmap_grow (fun err s' => Represents hash equal p s'.map ∧ Asked 1 s s' ∧
      (err = -ENOMEM ∧ (s.memory s.requests = false ∨ s.map.TooManyBuckets) ∨
        err = 0 ∧ s.memory s.requests = true ∧ ¬s.map.TooManyBuckets ∧ s'.map.buckets ≠ none ∧
          s'.map.size + 1 ≤ s'.map.capacity)) E s := by
  have hs := r.holds
  unfold hashmap_grow
  rw [wp_bind, wp_thisMap]
  generalize hbits : (if s.map.cap_bits + 1 < HASHMAP_MIN_CAP_BITS then HASHMAP_MIN_CAP_BITS
    else s.map.cap_bits + 1) = bits
  have hmin : 2 ≤ bits ∧ s.map.cap_bits + 1 ≤ bits := by
    unfold HASHMAP_MIN_CAP_BITS at hbits
    split at hbits <;> omega
  dsimp only
  rw [wp_bind, wp_allocated, wp_ite]
  refine ⟨fun hok => ?_, fun hno => ⟨r, ⟨rfl, rfl⟩, .inl ⟨rfl, ?_⟩⟩⟩
  swap
  · rw [Bool.and_eq_true, decide_eq_true_eq, not_and_or, Bool.not_eq_true] at hno
    refine hno.symm.imp_right fun hmany => ?_
    -- four buckets are never too many
    have hbits' : bits = s.map.cap_bits + 1 := by
      unfold HASHMAP_MIN_CAP_BITS at hbits
      by_contra hother
      obtain rfl : bits = 2 := by
        split at hbits
        · exact hbits.symm
        · exact absurd hbits.symm hother
      exact hmany (by decide)
    rw [hbits'] at hmany
    exact Nat.lt_of_not_le hmany
  rw [Bool.and_eq_true, decide_eq_true_eq] at hok
  -- a request that `size_t` can say has at most 2^60 buckets
  have hlimit : bits ≤ 60 := by
    by_contra hbig
    have hpow : 2 ^ 61 ≤ 2 ^ bits := Nat.pow_le_pow_right (by decide) (by omega)
    have hle := hok.1
    unfold POINTER_SIZE SIZE_MAX at hle
    omega
  rw [wp_bind]
  have hloop := forEachEntry.spec (E := E) (s := { s with requests := s.requests + 1 })
    (f := fun new_buckets cur =>
      hashmap_add_entry new_buckets (hash_bits (s.map.hash cur.key) bits) cur)
    hs (fun done new_buckets => new_buckets.length = 2 ^ bits ∧
      Placed s.map.hash bits new_buckets ∧ new_buckets.flatten.Perm done)
    (b := List.replicate (2 ^ bits) [])
  refine wp_imp (hloop ?_ ?_) ?_
  · rintro done e new_buckets ⟨hlen, hplaced, hperm⟩
    refine wp_imp (hashmap_add_entry.spec hlen (by omega) hplaced) ?_
    rintro buckets' s' ⟨rfl, hlen', hplaced', hperm'⟩
    refine ⟨rfl, hlen', hplaced', hperm'.trans ?_⟩
    exact (hperm.cons e).trans (List.perm_append_singleton e done).symm
  · refine ⟨List.length_replicate, ?_, by simp⟩
    intro i chain hi e he
    have hnil := List.eq_of_mem_replicate (List.mem_of_getElem? hi)
    rw [hnil] at he
    cases he
  · rintro new_buckets s' ⟨rfl, hlen, hplaced, hperm⟩
    rw [wp_bind, wp_update, wp_pure]
    have hload : s.map.size + 1 ≤ 2 ^ bits := by
      have hold := hs.load
      rcases hs.shape with ⟨-, hcap, -⟩ | ⟨-, hcap, -⟩
      · have hfour : 2 ^ 2 ≤ 2 ^ bits := Nat.pow_le_pow_right (by decide) hmin.1
        omega
      · have hdouble : 2 ^ (s.map.cap_bits + 1) ≤ 2 ^ bits :=
          Nat.pow_le_pow_right (by decide) hmin.2
        have hpos : 0 < 2 ^ s.map.cap_bits := Nat.pow_pos (by decide)
        rw [Nat.pow_succ] at hdouble
        omega
    have hfew : ¬s.map.TooManyBuckets := by
      have hpow : 2 ^ (s.map.cap_bits + 1) ≤ 2 ^ bits := Nat.pow_le_pow_right (by decide) hmin.2
      have hle := hok.1
      unfold TooManyBuckets POINTER_SIZE at *
      omega
    refine ⟨⟨r.hash_eq, r.equal_eq, ?_, hperm.trans r.same⟩, ⟨rfl, rfl⟩,
      .inr ⟨rfl, hok.2, hfew, by simp, hload⟩⟩
    refine ⟨.inr ⟨by simp, rfl, hmin.1⟩, hlimit, hlen, hplaced, ?_, ?_, ?_⟩
    · exact hs.differ.perm (r.laws laws).lawful hperm.symm
    · exact hs.count.trans hperm.length_eq.symm
    · exact Nat.le_of_succ_le hload

/-- A table with one chain replaced, when the new chain stands in the bucket of its entries and
all keys still differ. -/
theorem Represents.relinked (r : Represents hash equal p this) (laws : HashLaws hash equal)
    {q chain : List HashMapEntry} {i n : Nat} (hi : i < this.chains.length)
    (hplaced : ∀ e ∈ chain, hash_bits (this.hash e.key) this.cap_bits = i)
    (hdiffer : KeysDiffer HashMapEntry.key equal q)
    (hperm : (this.chains.set i chain).flatten.Perm q) (hn : n = q.length)
    (hload : n ≤ this.capacity) : Represents hash equal q
      { this with buckets := some (this.chains.set i chain), size := n } := by
  have h := r.holds
  refine ⟨r.hash_eq, r.equal_eq, ⟨?_, h.bits, ?_, h.placed.set hplaced, ?_, ?_, hload⟩, hperm⟩
  · rcases h.shape with ⟨hnull, -⟩ | ⟨-, hcap⟩
    · unfold chains at hi
      rw [hnull] at hi
      cases hi
    · exact .inr ⟨by simp, hcap⟩
  · show (this.chains.set i chain).length = this.capacity
    rw [List.length_set, h.length]
  · show KeysDiffer HashMapEntry.key this.equal (this.chains.set i chain).flatten
    rw [r.equal_eq]
    exact hdiffer.perm laws.lawful hperm.symm
  · rw [hn]
    exact hperm.length_eq.symm

/-- A new entry stands in the map where there was none under its key. It fails only where its
request is refused. -/
theorem insertEntry.spec (r : Represents hash equal p s.map) (laws : HashLaws hash equal)
    (hb : s.map.buckets ≠ none) (hroom : s.map.size + 1 ≤ s.map.capacity)
    (hnew : lookup HashMapEntry.key equal p key = none) :
    wp (insertEntry key value) (fun err s' => Asked 1 s s' ∧
      (err = 0 ∧ s.memory s.requests = true ∧
          Represents hash equal (put HashMapEntry.key equal p ⟨key, value⟩) s'.map ∨
        err = -ENOMEM ∧ s.memory s.requests = false ∧ Represents hash equal p s'.map)) E s := by
  have hs := r.holds
  have hlt := hs.hash_lt hb key
  have hc := List.getElem?_eq_getElem hlt
  have hput : put HashMapEntry.key equal p ⟨key, value⟩ = ⟨key, value⟩ :: p := by
    unfold put
    rw [erase_of_absent hnew]
  unfold insertEntry
  rw [wp_bind, wp_thisMap]
  dsimp only
  have hsmall : decide (1 * (3 * POINTER_SIZE) ≤ SIZE_MAX) = true := by decide
  rw [wp_bind, wp_allocated, wp_ite, hsmall, Bool.true_and]
  refine ⟨fun hok => ?_, fun hno => ⟨⟨rfl, rfl⟩, .inr ⟨rfl, Bool.eq_false_iff.mpr hno, r⟩⟩⟩
  rw [wp_bind, relink.spec (s := { s with requests := s.requests + 1 }) hc, wp_bind, wp_update,
    wp_pure]
  have hsize : (s.map.size + 1) % 2 ^ 64 = s.map.size + 1 := by
    have hcap := hs.capacity_le
    omega
  dsimp only
  rw [hsize]
  refine ⟨⟨rfl, rfl⟩, .inl ⟨rfl, hok, r.relinked laws hlt ?_ ?_ ?_ ?_ hroom⟩⟩
  · intro e he
    rcases List.mem_cons.mp he with rfl | hold
    · rfl
    · exact hs.placed _ _ hc e hold
  · exact (r.differ laws).put laws.lawful
  · rw [hput]
    exact (flatten_set_perm hlt).trans (((flatten_perm hc).symm.trans r.same).cons _)
  · rw [hput, List.length_cons, r.size]

/-- Without the entry that stands under a key, and with the others as they were. -/
theorem Represents.apart (r : Represents hash equal p this) (laws : HashLaws hash equal)
    {place : Nat} {e : HashMapEntry} {chain : List HashMapEntry}
    (hc : this.chains[hash_bits (this.hash key) this.cap_bits]? = some chain)
    (hplace : chain[place]? = some e) (hkey : this.equal e.key key = true) :
    (chain.eraseIdx place ++
      (this.chains.eraseIdx (hash_bits (this.hash key) this.cap_bits)).flatten).Perm
      (erase HashMapEntry.key equal p key) := by
  obtain ⟨hlt, hget⟩ := List.getElem?_eq_some_iff.mp hplace
  have hchain := List.getElem_cons_eraseIdx_perm hlt
  rw [hget] at hchain
  have hall : (e :: (chain.eraseIdx place ++
      (this.chains.eraseIdx (hash_bits (this.hash key) this.cap_bits)).flatten)).Perm p :=
    (hchain.append_right _).trans ((flatten_perm hc).symm.trans r.same)
  have hdiffer := (r.differ laws).perm laws.lawful hall.symm
  rw [r.equal_eq] at hkey
  have herase := erase_cons laws.lawful hdiffer hkey
  have hperm : (erase HashMapEntry.key equal _ key).Perm (erase HashMapEntry.key equal p key) :=
    erase_perm hall
  rwa [herase] at hperm

/-! ## What the functions do -/

/-- `HashMapBase_find` returns the value that the finite map has. -/
theorem find.spec (r : Represents hash equal p s.map) (laws : HashLaws hash equal) :
    wp (find key) (fun found s' => s' = s ∧
      found = (lookup HashMapEntry.key equal p key).map HashMapEntry.value) E s := by
  unfold find
  rw [wp_bind, wp_thisMap, wp_bind, hashmap_find_entry.spec r.holds, wp_pure, ← r.finds laws key,
    Option.map_map]
  exact ⟨rfl, rfl⟩

theorem delete.spec_absent {Q : Option (Long × Long) → MapState → Prop} (hs : s.map.Holds)
    (hl : s.map.located key = none) : wp (delete key) Q E s ↔ Q none s := by
  unfold delete
  rw [wp_bind, wp_thisMap]
  dsimp only
  rw [wp_bind, hashmap_find_entry.spec hs, hl]
  exact Iff.rfl

theorem delete.spec_found {Q : Option (Long × Long) → MapState → Prop} (hs : s.map.Holds)
    {place : Nat} {e : HashMapEntry} {chain : List HashMapEntry}
    (hl : s.map.located key = some (place, e))
    (hc : s.map.chains[hash_bits (s.map.hash key) s.map.cap_bits]? = some chain) :
    wp (delete key) Q E s ↔ Q (some (e.key, e.value)) { s with map := { s.map with
      buckets := some (s.map.chains.set (hash_bits (s.map.hash key) s.map.cap_bits)
        (chain.eraseIdx place))
      size := (s.map.size + 2 ^ 64 - 1) % 2 ^ 64 } } := by
  unfold delete
  rw [wp_bind, wp_thisMap]
  dsimp only
  rw [wp_bind, hashmap_find_entry.spec hs, hl]
  dsimp only
  rw [wp_bind, relink.spec hc, wp_bind, wp_update, wp_pure]

/-- The table without the entry that the search for a key ends at. -/
theorem Represents.deleted (r : Represents hash equal p this) (laws : HashLaws hash equal)
    {place : Nat} {e : HashMapEntry} {chain : List HashMapEntry}
    (hc : this.chains[hash_bits (this.hash key) this.cap_bits]? = some chain)
    (hplace : chain[place]? = some e) (hkey : this.equal e.key key = true) :
    Represents hash equal (erase HashMapEntry.key equal p key) { this with
      buckets := some (this.chains.set (hash_bits (this.hash key) this.cap_bits)
        (chain.eraseIdx place))
      size := (this.size + 2 ^ 64 - 1) % 2 ^ 64 } := by
  have hs := r.holds
  obtain ⟨hlt, -⟩ := List.getElem?_eq_some_iff.mp hc
  have hperm := r.apart laws hc hplace hkey
  have hcount : p.length = (erase HashMapEntry.key equal p key).length + 1 := by
    obtain ⟨hltp, hget⟩ := List.getElem?_eq_some_iff.mp hplace
    have hchain := (List.getElem_cons_eraseIdx_perm hltp).length_eq
    have hall := ((flatten_perm hc).symm.trans r.same).length_eq
    have hrest := hperm.length_eq
    rw [List.length_cons] at hchain
    rw [List.length_append] at hall hrest
    omega
  have hsize : (this.size + 2 ^ 64 - 1) % 2 ^ 64 = this.size - 1 := by
    have hload := hs.load
    have hcap := hs.capacity_le
    have hpos := r.size
    omega
  rw [hsize]
  refine r.relinked laws hlt ?_ (r.differ laws).erase ?_ ?_ ?_
  · intro d hd
    exact hs.placed _ _ hc d (List.mem_of_mem_eraseIdx hd)
  · exact (flatten_set_perm hlt).trans hperm
  · rw [r.size]
    omega
  · exact (Nat.sub_le _ _).trans hs.load

/-- `HashMapBase_delete` erases the key. -/
theorem delete.spec (r : Represents hash equal p s.map) (laws : HashLaws hash equal) :
    wp (delete key) (fun old s' =>
      old = (lookup HashMapEntry.key equal p key).map (fun e => (e.key, e.value)) ∧
      Represents hash equal (erase HashMapEntry.key equal p key) s'.map) E s := by
  have hfinds := r.finds laws key
  cases hl : s.map.located key with
  | none =>
    rw [hl] at hfinds
    rw [delete.spec_absent r.holds hl, ← hfinds, erase_of_absent hfinds.symm]
    exact ⟨rfl, r⟩
  | some found =>
    obtain ⟨place, e⟩ := found
    rw [hl] at hfinds
    obtain ⟨chain, hc, hplace, hkey⟩ := r.holds.located_some hl
    rw [delete.spec_found r.holds hl hc, ← hfinds]
    exact ⟨rfl, r.deleted laws hc hplace hkey⟩

/-- A key that is not there is added, unless a request for it is refused. -/
theorem insertNew.spec {strategy : HashmapInsertStrategy} (r : Represents hash equal p s.map)
    (laws : HashLaws hash equal) (hnew : lookup HashMapEntry.key equal p key = none)
    (hstrategy : strategy ≠ .HASHMAP_UPDATE) :
    wp (insertNew key value strategy) (fun err s' =>
      (err = 0 ∧ Represents hash equal (put HashMapEntry.key equal p ⟨key, value⟩) s'.map ∧
        ¬Refused s s') ∨
      err = -ENOMEM ∧ Represents hash equal p s'.map ∧ Refused s s') E s := by
  unfold insertNew
  rw [wp_bind, wp_thisMap, if_neg hstrategy]
  cases hgrow : s.map.hashmap_needs_to_grow with
  | true =>
    rw [if_pos rfl, wp_bind]
    refine wp_imp (hashmap_grow.spec r laws) ?_
    rintro err s' ⟨r', asked, ⟨rfl, hrefused⟩ | ⟨rfl, hgranted, hfew, hb, hroom⟩⟩
    · rw [if_pos (by decide)]
      refine .inr ⟨rfl, r', hrefused.imp (fun hno => ⟨s.requests, le_rfl, ?_, hno⟩) fun hmany =>
        ⟨hgrow, hmany⟩⟩
      rw [asked.requests]
      exact Nat.lt_succ_self _
    · rw [if_neg (by decide)]
      refine wp_imp (insertEntry.spec r' laws hb hroom hnew) ?_
      rintro err s'' ⟨asked', ⟨rfl, hgranted', r''⟩ | ⟨rfl, hno, r''⟩⟩
      · refine .inl ⟨rfl, r'', ?_⟩
        rintro (⟨n, hle, hlt, hn⟩ | ⟨-, hmany⟩)
        · rw [asked'.requests, asked.requests] at hlt
          rw [asked.memory, asked.requests] at hgranted'
          obtain rfl | rfl : n = s.requests ∨ n = s.requests + 1 := by omega
          · rw [hgranted] at hn
            cases hn
          · rw [hgranted'] at hn
            cases hn
        · exact hfew hmany
      · rw [asked.memory] at hno
        refine .inr ⟨rfl, r'', .inl ⟨s'.requests, ?_, ?_, hno⟩⟩
        · rw [asked.requests]
          exact Nat.le_succ _
        · rw [asked'.requests]
          exact Nat.lt_succ_self _
  | false =>
    rw [if_neg (by decide)]
    have hneeds := hgrow
    unfold hashmap_needs_to_grow at hgrow
    simp only [Bool.or_eq_false_iff, beq_eq_false_iff_ne, decide_eq_false_iff_not] at hgrow
    obtain ⟨hsome, hfull⟩ := hgrow
    have hload := r.holds.load
    have hcap := r.holds.capacity_le
    have hb : s.map.buckets ≠ none := by
      rcases r.holds.shape with ⟨-, hzero, -⟩ | ⟨hb, -⟩
      · exact absurd hzero hsome
      · exact hb
    refine wp_imp (insertEntry.spec r laws hb (by omega) hnew) ?_
    rintro err s' ⟨asked, ⟨rfl, hgranted, r'⟩ | ⟨rfl, hno, r'⟩⟩
    · refine .inl ⟨rfl, r', ?_⟩
      rintro (⟨n, hle, hlt, hn⟩ | ⟨hyes, -⟩)
      · rw [asked.requests] at hlt
        obtain rfl : n = s.requests := by omega
        rw [hgranted] at hn
        cases hn
      · rw [hneeds] at hyes
        cases hyes
    · refine .inr ⟨rfl, r', .inl ⟨s.requests, le_rfl, ?_, hno⟩⟩
      rw [asked.requests]
      exact Nat.lt_succ_self _

/-- What an insertion answers on a finite map, and the map after it. A new key is stored, unless a
request of the call was `refused`. -/
def Inserted (equal : Long → Long → Bool) (p : List HashMapEntry) (key value : Long)
    (strategy : HashmapInsertStrategy) (refused : Prop) (answer : Int × Long × Long)
    (q : List HashMapEntry) : Prop :=
  match lookup HashMapEntry.key equal p key, strategy with
  | some e, .HASHMAP_ADD => answer = (-EEXIST, e.key, e.value) ∧ q = p
  | some e, _ => answer = (0, e.key, e.value) ∧ q = put HashMapEntry.key equal p ⟨key, value⟩
  | none, .HASHMAP_UPDATE => answer = (-ENOENT, 0, 0) ∧ q = p
  | none, _ => (answer = (0, 0, 0) ∧ q = put HashMapEntry.key equal p ⟨key, value⟩ ∧ ¬refused) ∨
      answer = (-ENOMEM, 0, 0) ∧ q = p ∧ refused

/-- The table with another entry in the place of the one that the search ends at. -/
theorem Represents.replaced (r : Represents hash equal p this) (laws : HashLaws hash equal)
    (value : Long)
    {place : Nat} {e : HashMapEntry} {chain : List HashMapEntry}
    (hc : this.chains[hash_bits (this.hash key) this.cap_bits]? = some chain)
    (hplace : chain[place]? = some e) (hkey : this.equal e.key key = true) :
    Represents hash equal (put HashMapEntry.key equal p ⟨key, value⟩) { this with
      buckets := some (this.chains.set (hash_bits (this.hash key) this.cap_bits)
        (chain.set place ⟨key, value⟩)) } := by
  have hs := r.holds
  obtain ⟨hlt, -⟩ := List.getElem?_eq_some_iff.mp hc
  obtain ⟨hltp, hget⟩ := List.getElem?_eq_some_iff.mp hplace
  have hnew : (chain.set place ⟨key, value⟩).Perm (⟨key, value⟩ :: chain.eraseIdx place) := by
    have hset := List.getElem_cons_eraseIdx_perm (l := chain.set place ⟨key, value⟩) (n := place)
      (by rwa [List.length_set])
    rw [List.getElem_set_self, List.eraseIdx_set_eq] at hset
    exact hset.symm
  have hperm : (this.chains.set (hash_bits (this.hash key) this.cap_bits)
      (chain.set place ⟨key, value⟩)).flatten.Perm
      (put HashMapEntry.key equal p ⟨key, value⟩) := by
    refine (flatten_set_perm hlt).trans ((hnew.append_right _).trans ?_)
    exact (r.apart laws hc hplace hkey).cons _
  have hcount : this.size = (put HashMapEntry.key equal p ⟨key, value⟩).length := by
    have hset : (this.chains.set _ (chain.set place ⟨key, value⟩)).flatten.length = _ :=
      (flatten_set_perm hlt).length_eq
    have hold := (flatten_perm hc).length_eq
    rw [List.length_append] at hset hold
    rw [List.length_set] at hset
    have hcount := hs.count
    unfold entries at hcount
    rw [hcount, ← hperm.length_eq]
    omega
  refine r.relinked laws hlt ?_ ((r.differ laws).put laws.lawful) hperm hcount hs.load
  intro d hd
  rcases List.mem_or_eq_of_mem_set hd with hold | rfl
  · exact hs.placed _ _ hc d hold
  · rfl

/-- `HashMapBase_insert` answers as a finite map does. -/
theorem insert.spec {strategy : HashmapInsertStrategy} (r : Represents hash equal p s.map)
    (laws : HashLaws hash equal) (happend : strategy ≠ .HASHMAP_APPEND) :
    wp (insert key value strategy) (fun answer s' =>
      ∃ q, Inserted equal p key value strategy (Refused s s') answer q ∧
        Represents hash equal q s'.map) E s := by
  have hfinds := r.finds laws key
  unfold insert Inserted
  rw [wp_bind, wp_thisMap]
  dsimp only
  rw [if_neg happend, wp_bind, hashmap_find_entry.spec r.holds, ← hfinds]
  cases hl : s.map.located key with
  | none =>
    rw [hl] at hfinds
    dsimp only [Option.map_none]
    rw [wp_bind]
    by_cases hupdate : strategy = .HASHMAP_UPDATE
    · subst hupdate
      exact ⟨p, ⟨rfl, rfl⟩, r⟩
    · refine wp_imp (insertNew.spec r laws hfinds.symm hupdate) ?_
      rintro err s' (⟨rfl, r', hgranted⟩ | ⟨rfl, r', hrefused⟩)
      · refine ⟨_, ?_, r'⟩
        cases strategy with
        | HASHMAP_UPDATE => exact absurd rfl hupdate
        | _ => exact .inl ⟨rfl, rfl, hgranted⟩
      · refine ⟨p, ?_, r'⟩
        cases strategy with
        | HASHMAP_UPDATE => exact absurd rfl hupdate
        | _ => exact .inr ⟨rfl, rfl, hrefused⟩
  | some found =>
    obtain ⟨place, e⟩ := found
    obtain ⟨chain, hc, hplace, hkey⟩ := r.holds.located_some hl
    have r' := r.replaced laws value hc hplace hkey
    cases strategy with
    | HASHMAP_ADD => exact ⟨p, ⟨rfl, rfl⟩, r⟩
    | HASHMAP_SET | HASHMAP_UPDATE =>
      dsimp only [Option.map_some]
      rw [wp_bind, relink.spec hc, wp_pure]
      exact ⟨_, ⟨rfl, rfl⟩, r'⟩
    | HASHMAP_APPEND => exact absurd rfl happend

/-- A table whose chains are all empty is empty. -/
theorem Represents.nothing (r : Represents hash equal p this)
    (h : ∀ chain ∈ this.chains, chain = []) : Represents hash equal [] this := by
  refine ⟨r.hash_eq, r.equal_eq, r.holds, ?_⟩
  have hnil : this.entries = [] := by
    apply List.flatten_eq_nil_iff.mpr h
  rw [hnil]

/-- Deleting the keys of one chain, first to last, empties it and leaves the others alone. -/
theorem clear_chain.spec (laws : HashLaws hash equal) {i : Nat} {chain : List HashMapEntry}
    (r : Represents hash equal p s.map) (hc : s.map.chains[i]? = some chain) :
    wp (chain.foldlM (fun _ cur => do
        let _ ← delete cur.key
        pure ()) ())
      (fun _ s' => (∃ q, Represents hash equal q s'.map) ∧
        s'.map.chains = s.map.chains.set i []) E s := by
  induction chain generalizing s p with
  | nil =>
    rw [List.foldlM_nil, wp_pure]
    refine ⟨⟨p, r⟩, ?_⟩
    obtain ⟨hlt, hget⟩ := List.getElem?_eq_some_iff.mp hc
    rw [← hget, List.set_getElem_self]
  | cons e rest ih =>
    have hhome := r.holds.placed i _ hc e List.mem_cons_self
    have hself := (r.laws laws).lawful.refl e.key
    have hl : s.map.located e.key = some (0, e) := by
      unfold located
      rw [hhome, List.getD_eq_getElem?_getD, hc]
      unfold findIn
      dsimp only [Option.getD_some]
      rw [if_pos hself]
    have hc' : s.map.chains[hash_bits (s.map.hash e.key) s.map.cap_bits]? = some (e :: rest) := by
      rwa [hhome]
    have hplace : (e :: rest)[0]? = some e := rfl
    have r' := r.deleted laws hc' hplace hself
    rw [List.foldlM_cons, wp_bind, wp_bind, delete.spec_found r.holds hl hc', wp_pure]
    obtain ⟨hlt, -⟩ := List.getElem?_eq_some_iff.mp hc
    refine wp_imp (ih r' ?_) ?_
    · show (s.map.chains.set _ rest)[i]? = some rest
      rw [hhome, List.getElem?_set_self hlt]
    · rintro _ s' ⟨hrep, hchains⟩
      refine ⟨hrep, hchains.trans ?_⟩
      show ((s.map.chains.set _ rest).set i []) = _
      rw [hhome, List.set_set]

/-- `HashMapBase_clear` leaves the empty map. -/
theorem clear.spec (r : Represents hash equal p s.map) (laws : HashLaws hash equal) :
    wp clear (fun _ s' => Represents hash equal [] s'.map) E s := by
  unfold clear forEachEntry
  rw [wp_bind, wp_thisMap]
  refine wp_imp (wp_foldlM_range
    (fun bkt _ s' => (∃ q, Represents hash equal q s'.map) ∧
      s'.map.chains = List.replicate bkt [] ++ s.map.chains.drop bkt) ?_ ⟨⟨p, r⟩, rfl⟩) ?_
  · rintro bkt - s' hlt ⟨⟨q, rq⟩, hchains⟩
    rw [← r.holds.length] at hlt
    have hc : s'.map.chains[bkt]? = some s.map.chains[bkt] := by
      rw [hchains, List.getElem?_append_right (by simp), List.length_replicate, Nat.sub_self,
        List.getElem?_drop, Nat.add_zero, List.getElem?_eq_getElem hlt]
    rw [wp_bind, bucket.spec hc]
    refine wp_imp (clear_chain.spec laws rq hc) ?_
    rintro _ t ⟨hrep, ht⟩
    refine ⟨hrep, ht.trans ?_⟩
    rw [hchains, List.drop_eq_getElem_cons hlt, List.set_append_right _ _ (by simp), List.length_replicate, Nat.sub_self,
      List.set_cons_zero, List.replicate_succ']
    simp
  · rintro _ s' ⟨⟨q, rq⟩, hchains⟩
    rw [← r.holds.length, List.drop_length, List.append_nil] at hchains
    apply rq.nothing
    intro chain hchain
    rw [hchains] at hchain
    exact List.eq_of_mem_replicate hchain

/-! ## Runs -/

inductive MapCall
  | insert (key value : Long) (strategy : HashmapInsertStrategy)
  | delete (key : Long)
  | find (key : Long)
  | iterator
  | clear
deriving DecidableEq, Repr

/-- What a call returns, and what it stores through its pointers. -/
inductive MapAnswer
  | inserted (err : Int) (old_key old_value : Long)
  | deleted (old : Option (Long × Long))
  | found (value : Option Long)
  | visited (entries : List HashMapEntry)
  | cleared
deriving DecidableEq, Repr

def runCall : MapCall → Prog MapState Fault MapAnswer
  | .insert key value strategy => do
    let answer ← insert key value strategy
    pure (.inserted answer.1 answer.2.1 answer.2.2)
  | .delete key => do
    let old ← delete key
    pure (.deleted old)
  | .find key => do
    let value ← find key
    pure (.found value)
  | .iterator => do
    let entries ← iterator
    pure (.visited entries)
  | .clear => do
    clear
    pure .cleared

/-- What a call answers on a finite map, and the map after it. -/
def Answers (equal : Long → Long → Bool) (p : List HashMapEntry) (refused : Prop) :
    MapCall → MapAnswer → List HashMapEntry → Prop
  | .insert key value strategy, .inserted err old_key old_value, q =>
    Inserted equal p key value strategy refused (err, old_key, old_value) q
  | .delete key, .deleted old, q =>
    old = (lookup HashMapEntry.key equal p key).map (fun e => (e.key, e.value)) ∧
      q = erase HashMapEntry.key equal p key
  | .find key, .found value, q =>
    value = (lookup HashMapEntry.key equal p key).map HashMapEntry.value ∧ q = p
  | .iterator, .visited entries, q => entries.Perm p ∧ q = p
  | .clear, .cleared, q => q = []
  | _, _, _ => False

/-- The table stands for `p`: as many entries, each in the bucket of its hash. -/
structure Stands (p : List HashMapEntry) (this : HashMapBase) : Prop where
  same : this.entries.Perm p
  size : this.size = p.length
  placed : ∀ i chain, this.chains[i]? = some chain → ∀ e ∈ chain,
    i = hash_bits (this.hash e.key) this.cap_bits ∧ i < this.capacity

/-- Along the calls the table answers as a finite map that starts as `p` does. -/
def Refines (equal : Long → Long → Bool) (p : List HashMapEntry) : List MapCall → MapState → Prop
  | [], s => Stands p s.map
  | call :: rest, s => Stands p s.map ∧ ∃ answer s' q, runCall call s = .ok (answer, s') ∧
    Answers equal p (Refused s s') call answer q ∧ Refines equal q rest s'

theorem Represents.stands (r : Represents hash equal p this) : Stands p this := by
  refine ⟨r.same, r.size, fun i chain hi e he => ?_⟩
  obtain ⟨hlt, -⟩ := List.getElem?_eq_some_iff.mp hi
  refine ⟨(r.holds.placed i chain hi e he).symm, ?_⟩
  rw [← r.holds.length]
  exact hlt

/-- One call. -/
theorem runCall.spec {call : MapCall} (r : Represents hash equal p s.map)
    (laws : HashLaws hash equal) (happend : ∀ k v, call ≠ .insert k v .HASHMAP_APPEND) :
    wp (runCall call) (fun answer s' =>
      ∃ q, Answers equal p (Refused s s') call answer q ∧ Represents hash equal q s'.map) E s := by
  cases call with
  | insert key value strategy =>
    have hstrategy : strategy ≠ .HASHMAP_APPEND := by
      rintro rfl
      exact happend key value rfl
    unfold runCall
    rw [wp_bind]
    exact wp_imp (insert.spec r laws hstrategy) fun _ _ ⟨q, hq, r'⟩ => ⟨q, hq, r'⟩
  | delete key =>
    unfold runCall
    rw [wp_bind]
    exact wp_imp (delete.spec r laws) fun _ _ ⟨hold, h⟩ => ⟨_, ⟨hold, rfl⟩, h⟩
  | find key =>
    unfold runCall
    rw [wp_bind]
    refine wp_imp (find.spec r laws) ?_
    rintro value s' ⟨rfl, hvalue⟩
    exact ⟨p, ⟨hvalue, rfl⟩, r⟩
  | iterator =>
    unfold runCall
    rw [wp_bind]
    refine wp_imp (iterator.spec r.holds) ?_
    rintro entries s' ⟨rfl, hentries⟩
    refine ⟨p, ⟨?_, rfl⟩, r⟩
    rw [hentries]
    exact r.same
  | clear =>
    unfold runCall
    rw [wp_bind]
    exact wp_imp (clear.spec r laws) fun _ _ h => ⟨[], rfl, h⟩

theorem refines_of_represents (laws : HashLaws hash equal) {calls : List MapCall}
    (happend : ∀ k v, .insert k v .HASHMAP_APPEND ∉ calls) (r : Represents hash equal p s.map) :
    Refines equal p calls s := by
  induction calls generalizing s p with
  | nil => exact r.stands
  | cons call rest ih =>
    refine ⟨r.stands, ?_⟩
    have hcall : ∀ k v, call ≠ .insert k v .HASHMAP_APPEND := by
      rintro k v rfl
      exact happend k v List.mem_cons_self
    obtain ⟨answer, s', hrun, q, hq, r'⟩ := wp_never_iff.mp (runCall.spec r laws hcall)
    exact ⟨answer, s', q, hrun, hq, ih (fun k v h => happend k v (List.mem_cons_of_mem _ h)) r'⟩

/-- From a new table, with any lawful hash and any memory, every run of calls that append
nothing answers as a finite map that starts empty. -/
theorem the_table_is_a_finite_map (laws : HashLaws hash equal) (memory : Nat → Bool)
    (calls : List MapCall) (happend : ∀ k v, .insert k v .HASHMAP_APPEND ∉ calls) :
    Refines equal [] calls ⟨{ ctor with hash := hash, equal := equal }, memory, 0⟩ := by
  apply refines_of_represents laws happend
  exact ⟨rfl, rfl, holds_of_empty rfl rfl rfl rfl, .refl _⟩

/-- Four numbers. The fifth request is the one of the table that grows for the fourth of them. -/
def fourNumbers : List MapCall :=
  [.insert 1 10 .HASHMAP_ADD, .insert 2 20 .HASHMAP_ADD, .insert 3 30 .HASHMAP_ADD,
    .insert 4 40 .HASHMAP_ADD, .insert 4 41 .HASHMAP_SET, .insert 4 42 .HASHMAP_UPDATE, .find 4,
    .delete 2, .iterator, .clear]

theorem the_table_is_a_finite_map_for_numbers :
    Refines ctor.equal [] fourNumbers
      ⟨{ ctor with hash := ctor.hash, equal := ctor.equal }, fun n => n != 4, 0⟩ :=
  the_table_is_a_finite_map ctor_laws (fun n => n != 4) fourNumbers (by simp [fourNumbers])

-- The table of four buckets is refused the eight that the fourth number needs, and gets them later.
example : (do
    let _ ← runCall (.insert 1 10 .HASHMAP_ADD)
    let _ ← runCall (.insert 2 20 .HASHMAP_ADD)
    let _ ← runCall (.insert 3 30 .HASHMAP_ADD)
    let refused ← runCall (.insert 4 40 .HASHMAP_ADD)
    let stored ← runCall (.insert 4 41 .HASHMAP_SET)
    let this ← thisMap
    pure (refused, stored, this.capacity, this.size) : Prog MapState Fault _).run'
      ⟨ctor, fun n => n != 4, 0⟩ =
    .ok (.inserted (-ENOMEM) 0 0, .inserted 0 0 0, 8, 4) := by decide +kernel

end HashMapBase

end system_binder
