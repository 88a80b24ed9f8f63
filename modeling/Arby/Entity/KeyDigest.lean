import Arby.Entity.KeyAssertions
import Arby.Entity.KeyOrder

/-! What the digest of a key says about its values. SHA-1 is fed the keys and the values one after
the other, with nothing between them, so that the boundaries are lost. -/

namespace Arby.Entity

open Kit KeyImpl

/-- No other map gives SHA-1 the same bytes. -/
def Distinguished (values : MapType) : Prop :=
  ∀ values', sha1Input values' = sha1Input values → values' = values

/-- No other map has the same digest. -/
def Identified (hash : HashFunctions) (values : MapType) : Prop :=
  ∀ values', digestOf hash values' = digestOf hash values → values' = values

/-- Where the strings of the entries end. -/
def boundaries (values : MapType) : List (ℕ × ℕ) :=
  values.entries.map fun entry => (entry.1.length, entry.2.length)

variable {values values' : MapType}

theorem toList_sha1Input (values : MapType) : (sha1Input values).toList =
    values.entries.flatMap fun entry => entry.1.toList ++ entry.2.toList := by
  have hLoop : ∀ (entries : List (String × String)) (input : String),
      (entries.foldl (fun input entry => input ++ entry.1 ++ entry.2) input).toList =
        input.toList ++ entries.flatMap fun entry => entry.1.toList ++ entry.2.toList := by
    intro entries
    induction entries with
    | nil => simp
    | cons entry entries ih => intro input; simp [ih]
  exact hLoop values.entries ""

/-- Maps with the same boundaries are told apart. -/
theorem eq_of_boundaries (hBoundaries : boundaries values = boundaries values')
    (hInput : sha1Input values = sha1Input values') : values = values' := by
  have hBytes := congrArg String.toList hInput
  rw [toList_sha1Input, toList_sha1Input] at hBytes
  obtain ⟨entries, sorted⟩ := values
  obtain ⟨entries', sorted'⟩ := values'
  refine OrdMap.ext ?_
  dsimp only [boundaries] at hBoundaries hBytes ⊢
  clear hInput sorted sorted'
  induction entries generalizing entries' with
  | nil =>
    rw [List.map_nil, eq_comm, List.map_eq_nil_iff] at hBoundaries
    exact hBoundaries.symm
  | cons entry entries ih =>
    obtain ⟨k, v⟩ := entry
    cases entries' with
    | nil => cases hBoundaries
    | cons entry' entries' =>
      obtain ⟨k', v'⟩ := entry'
      simp only [List.map_cons, List.cons.injEq, Prod.mk.injEq] at hBoundaries
      obtain ⟨⟨hKey, hValue⟩, hRest⟩ := hBoundaries
      simp only [List.flatMap_cons, List.append_assoc] at hBytes
      obtain ⟨hk, hBytes⟩ := List.append_inj hBytes
        (by rw [String.length_toList, String.length_toList, hKey])
      obtain ⟨hv, hBytes⟩ := List.append_inj hBytes
        (by rw [String.length_toList, String.length_toList, hValue])
      rw [String.toList_inj.mp hk, String.toList_inj.mp hv, ih entries' hRest hBytes]

/-- The map with one entry. -/
def entryOf (k v : String) : MapType := ⟨[(k, v)], List.pairwise_singleton _ _⟩

theorem sha1Input_entryOf (k v : String) : sha1Input (entryOf k v) = k ++ v := by
  simp [sha1Input, entryOf]

/-- Every string is the input of two different maps: cut it before its first byte and after its last
one, or, when it has none, take the map without entries. -/
theorem exists_two_maps (input : String) : ∃ values values', values ≠ values' ∧
    sha1Input values = input ∧ sha1Input values' = input := by
  by_cases hEmpty : input = ""
  · subst hEmpty
    refine ⟨∅, entryOf "" "", ?_, rfl, sha1Input_entryOf "" ""⟩
    intro h
    cases congrArg OrdMap.entries h
  · refine ⟨entryOf input "", entryOf "" input, ?_, ?_, ?_⟩
    · intro h
      have hEntries := congrArg OrdMap.entries h
      simp [entryOf, hEmpty] at hEntries
    · rw [sha1Input_entryOf, String.append_empty]
    · rw [sha1Input_entryOf, String.empty_append]

/-- Whatever the values are, another map has the same bytes. -/
theorem exists_same_input (values : MapType) :
    ∃ values', values' ≠ values ∧ sha1Input values' = sha1Input values := by
  obtain ⟨first, second, hne, hFirst, hSecond⟩ := exists_two_maps (sha1Input values)
  by_cases h : first = values
  · exact ⟨second, fun h' => hne (h.trans h'.symm), hSecond⟩
  · exact ⟨first, h, hFirst⟩

theorem digestOf_eq_of_input (hash : HashFunctions) (h : sha1Input values = sha1Input values') :
    digestOf hash values = digestOf hash values' := by
  rw [digestOf, digestOf, h]

/-- The digest of no key identifies its values, whatever the hash function is. -/
theorem not_distinguished (hash : HashFunctions) (values : MapType) :
    ¬Distinguished values ∧ ¬Identified hash values := by
  obtain ⟨values', hne, hInput⟩ := exists_same_input values
  exact ⟨fun h => hne (h values' hInput),
    fun h => hne (h values' (digestOf_eq_of_input hash hInput))⟩

/-- `{"a": "bc"}` and `{"ab": "c"}`. -/
theorem boundary_moved : ¬∀ values values' : MapType, values ≠ values' →
    sha1Input values ≠ sha1Input values' := by
  intro h
  exact h (entryOf "a" "bc") (entryOf "ab" "c") (by decide)
    ((sha1Input_entryOf "a" "bc").trans (sha1Input_entryOf "ab" "c").symm)

namespace FixConnectorArgs

/-- The entries of `to_key`, in key order. -/
def keyEntries (args : FixConnectorArgs) : List (String × String) :=
  [("reactive.SenderCompId", args.senderCompId),
    ("reactive.SocketConnectHost", args.socketConnectHost),
    ("reactive.SocketConnectPort", args.socketConnectPort),
    ("reactive.TargetCompId", args.targetCompId),
    ("reactive.UseSSL", if args.useSsl then "1" else "0")]

theorem lookup_toKey (hash : HashFunctions) (args : FixConnectorArgs) : ∃ heap key,
    run (KeyHeap.step hash) {} (args.toKey 0) = some heap ∧ heap.lookup 0 = some key ∧
      key.val.values.entries = args.keyEntries := by
  -- the comparisons of each name with those that are in the map when it is set
  have hTarget : ¬"reactive.TargetCompId" < "reactive.SenderCompId" := by decide +kernel
  have hHost : ¬"reactive.SocketConnectHost" < "reactive.SenderCompId" ∧
      "reactive.SocketConnectHost" < "reactive.TargetCompId" := by decide +kernel
  have hPort : ¬"reactive.SocketConnectPort" < "reactive.SenderCompId" ∧
      ¬"reactive.SocketConnectPort" < "reactive.SocketConnectHost" ∧
      "reactive.SocketConnectPort" < "reactive.TargetCompId" := by decide +kernel
  have hSsl : ¬"reactive.UseSSL" < "reactive.SenderCompId" ∧
      ¬"reactive.UseSSL" < "reactive.SocketConnectHost" ∧
      ¬"reactive.UseSSL" < "reactive.SocketConnectPort" ∧
      ¬"reactive.UseSSL" < "reactive.TargetCompId" := by decide +kernel
  refine ⟨_, _, rfl, rfl, ?_⟩
  simp [OrdMap.insert, insertEntry_cons, keyEntries, hTarget, hHost, hPort, hSsl]

/-- Two connectors of different arguments whose keys have the same digest: the sender's name takes up
the name of the next value. -/
theorem keys_share_digest (hash : HashFunctions) (sender first second port target : String)
    (ssl : Bool) : ∃ heap heap' key key',
      run (KeyHeap.step hash) {} (toKey ⟨sender ++ "reactive.SocketConnectHost" ++ first, target,
        second, port, ssl⟩ 0) = some heap ∧ heap.lookup 0 = some key ∧
      run (KeyHeap.step hash) {} (toKey ⟨sender, target,
        first ++ "reactive.SocketConnectHost" ++ second, port, ssl⟩ 0) = some heap' ∧
      heap'.lookup 0 = some key' ∧ key.val.values ≠ key'.val.values ∧
      digestOf hash key.val.values = digestOf hash key'.val.values := by
  obtain ⟨heap, key, hRun, hKey, hEntries⟩ := lookup_toKey hash
    ⟨sender ++ "reactive.SocketConnectHost" ++ first, target, second, port, ssl⟩
  obtain ⟨heap', key', hRun', hKey', hEntries'⟩ := lookup_toKey hash
    ⟨sender, target, first ++ "reactive.SocketConnectHost" ++ second, port, ssl⟩
  refine ⟨heap, heap', key, key', hRun, hKey, hRun', hKey', ?_, digestOf_eq_of_input hash ?_⟩
  · intro h
    rw [← h, hEntries] at hEntries'
    have hSender := (List.cons.inj hEntries').1
    have hLength := congrArg (fun entry => entry.2.length) hSender
    simp only [String.length_append] at hLength
    have hName : "reactive.SocketConnectHost".length = 26 := by decide
    omega
  · rw [← String.toList_inj, toList_sha1Input, toList_sha1Input, hEntries, hEntries']
    simp [keyEntries]

end FixConnectorArgs

end Arby.Entity
