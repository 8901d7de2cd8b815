import TagGraph.Property.Codec
import TagGraph.Proofs.Json.RoundTrip

/-!
# Values survive their stored texts

Exactly the values with no number that is not finite have a stored text. The text is read as the
value it was written for, unless the value is a document that nests as deep as the reader allows:
the tag around it is one level more (`PropertyValue.decode?_encode?`). What may change on the way
are the doubles in the value, each into the one that its notation is read as
(`PropertyValue.decode?_of_encode?`). Every value that any text is read as, tagged or not, can be
written again.
-/

namespace TagGraph

/-- The number that the stored text of a number is read as. -/
def Number.reread : Number → Number
  | .finite x => .finite x.reread
  | .infinite negative => .infinite negative
  | .nan => .nan

namespace PropertyValue

/-- A value holds no number outside the finite doubles. -/
def Finite (v : PropertyValue) : Prop :=
  ∀ n, v = .number n → ∃ x, n = .finite x

/-- How deep the payload of a value nests. Only documents nest as deep as they like. -/
def payloadDepth : PropertyValue → Nat
  | .json d => d.json.depth
  | _ => 0

/-! ## Values that are read again -/

/-- The value that the stored text of a value is read as. -/
def reread : PropertyValue → PropertyValue
  | .string s => .string s
  | .number n => .number n.reread
  | .boolean b => .boolean b
  | .node id => .node id
  | .nodes ids => .nodes ids
  | .json d => .json d.reread

/-- The doubles in a value. -/
def doubles : PropertyValue → List Binary64
  | .number (.finite x) => [x]
  | .json d => d.json.doubles
  | .number (.infinite _) | .number .nan | .string _ | .boolean _ | .node _ | .nodes _ => []

/-- All doubles in a value are read again as they were. -/
def ReadsBack (v : PropertyValue) : Prop :=
  ∀ x ∈ v.doubles, x.ReadsBack

instance (v : PropertyValue) : Decidable v.ReadsBack :=
  inferInstanceAs (Decidable (∀ x ∈ v.doubles, x.ReadsBack))

/-- A value comes back as it was if and only if all doubles in it do. -/
theorem reread_eq_iff (v : PropertyValue) : v.reread = v ↔ v.ReadsBack := by
  cases v with
  | number n =>
    cases n with
    | finite x => simp [reread, Number.reread, ReadsBack, doubles, Binary64.ReadsBack]
    | infinite negative => simp [reread, Number.reread, ReadsBack, doubles]
    | nan => simp [reread, Number.reread, ReadsBack, doubles]
  | json d =>
    rw [reread, PropertyValue.json.injEq]
    exact d.reread_eq_iff
  | string s => simp [reread, ReadsBack, doubles]
  | boolean b => simp [reread, ReadsBack, doubles]
  | node id => simp [reread, ReadsBack, doubles]
  | nodes ids => simp [reread, ReadsBack, doubles]

/-- Values come back as they were if and only if all doubles in them do. -/
theorem map_reread_eq_iff (values : List PropertyValue) :
    values.map reread = values ↔ ∀ value ∈ values, value.ReadsBack := by
  induction values with
  | nil => simp
  | cons value values ih =>
    rw [List.map_cons, List.cons.injEq, ih, reread_eq_iff, List.forall_mem_cons]

/-- A value that is read again fits the same types. -/
@[simp] theorem conformsTo_reread (v : PropertyValue) (type : FieldType) :
    v.reread.conformsTo type = v.conformsTo type := by
  cases v <;> cases type <;> rfl

/-- A value that is read again names the same node. -/
@[simp] theorem asNodeId?_reread (v : PropertyValue) : v.reread.asNodeId? = v.asNodeId? := by
  cases v <;> rfl

/-! ## Tagged values -/

/-- `type` comes before `value`, so a tagged document stays a document. -/
theorem isCanonical_tagged (tag : String) {payload : Json} (h : payload.isCanonical = true) :
    (tagged tag payload).isCanonical = true := by
  have hkeys : Json.keyBefore "type" "value" = true := by decide
  simp [tagged, Json.isCanonical, Json.sortedAfter, hkeys, h]

theorem depth_tagged (tag : String) (payload : Json) :
    (tagged tag payload).depth = payload.depth + 1 := by
  simp [tagged, Json.depth, Json.depthEntries]

/-- A tagged document is read by its tag if the tag is known. -/
theorem ofDocument?_tagged {tag : String} {payload : Json} {v : PropertyValue}
    (hcanonical : (tagged tag payload).isCanonical = true)
    (htag : ofTag? tag payload = some (some v)) :
    ofDocument? ⟨tagged tag payload, hcanonical⟩ = some v := by
  have htype : (tagged tag payload).get? "type" = some (.string tag) := rfl
  have hvalue : (tagged tag payload).get? "value" = some payload := rfl
  simp only [ofDocument?, htype, hvalue, Option.bind_some, Json.asString?, htag, Option.getD_some]

/-- The text of a tagged value. The tag takes one level of the depth that a text may have. -/
theorem decode?_tagged {tag : String} {payload : Json} {v : PropertyValue}
    (hcanonical : payload.isCanonical = true)
    (htag : ofTag? tag payload.reread = some (some v)) :
    decode? (tagged tag payload).render = if payload.depth ≤ 126 then some v else none := by
  have hread := Document.ofString?_render ⟨_, isCanonical_tagged tag hcanonical⟩
  have hlimit : payload.depth + 1 ≤ Json.depthLimit ↔ payload.depth ≤ 126 :=
    Nat.succ_le_succ_iff
  rw [decode?, hread, depth_tagged]
  by_cases hdepth : payload.depth ≤ 126
  · rw [if_pos hdepth, if_pos (hlimit.mpr hdepth)]
    exact ofDocument?_tagged _ htag
  · rw [if_neg hdepth, if_neg (mt hlimit.mp hdepth)]
    rfl

/-! ## Payloads -/

/-- Written identifiers are read again. -/
theorem idItems?_idJson (ids : List NodeId) : idItems? (ids.map idJson) = some ids := by
  induction ids with
  | nil => rfl
  | cons id ids ih =>
    rw [List.map_cons, idJson, idItems?, NodeId.ofString?_toString, ih]
    rfl

theorem allCanonical_idJson (ids : List NodeId) :
    Json.allCanonical (ids.map idJson) = true := by
  induction ids with
  | nil => rfl
  | cons id ids ih => exact ih

theorem rereadItems_idJson (ids : List NodeId) :
    Json.rereadItems (ids.map idJson) = ids.map idJson := by
  induction ids with
  | nil => rfl
  | cons id ids ih =>
    rw [List.map_cons, Json.rereadItems, ih]
    rfl

theorem depthItems_idJson (ids : List NodeId) : Json.depthItems (ids.map idJson) = 0 := by
  induction ids with
  | nil => rfl
  | cons id ids ih =>
    rw [List.map_cons, Json.depthItems, ih]
    rfl

/-- The stored form of a value is its payload, which nests as deep, under a tag with which it is
read again as the value is. -/
theorem toJson?_eq_tagged {v : PropertyValue} {j : Json} (h : v.toJson? = some j) :
    ∃ tag payload, j = tagged tag payload ∧ payload.isCanonical = true ∧
      ofTag? tag payload.reread = some (some v.reread) ∧
      (payload.depth ≤ 126 ↔ v.payloadDepth ≤ 126) := by
  cases v with
  | string s => exact ⟨_, _, (Option.some.inj h).symm, rfl, rfl, Iff.rfl⟩
  | number n =>
    cases n with
    | finite x => exact ⟨_, _, (Option.some.inj h).symm, rfl, rfl, Iff.rfl⟩
    | infinite negative => cases h
    | nan => cases h
  | boolean b => exact ⟨_, _, (Option.some.inj h).symm, rfl, rfl, Iff.rfl⟩
  | node id =>
    refine ⟨_, _, (Option.some.inj h).symm, rfl, ?_, Iff.rfl⟩
    simp [ofTag?, idJson, Json.reread, Json.asString?, NodeId.ofString?_toString, reread]
  | nodes ids =>
    refine ⟨_, _, (Option.some.inj h).symm, allCanonical_idJson ids, ?_, ?_⟩
    · simp [ofTag?, Json.reread, rereadItems_idJson, idItems?_idJson, reread]
    · simp [Json.depth, depthItems_idJson, payloadDepth]
  | json d =>
    refine ⟨_, _, (Option.some.inj h).symm, d.canonical, ?_, Iff.rfl⟩
    simp [ofTag?, Document.ofJson_reread, Document.ofJson_json, reread]

/-- Exactly the finite values have a stored form. -/
theorem toJson?_isSome_iff (v : PropertyValue) : v.toJson?.isSome ↔ v.Finite := by
  cases v with
  | number n =>
    cases n with
    | finite x => exact ⟨fun _ m hm => ⟨x, (PropertyValue.number.inj hm).symm⟩, fun _ => rfl⟩
    | infinite negative =>
      refine ⟨fun h => Bool.noConfusion h, fun h => ?_⟩
      obtain ⟨x, hx⟩ := h _ rfl
      cases hx
    | nan =>
      refine ⟨fun h => Bool.noConfusion h, fun h => ?_⟩
      obtain ⟨x, hx⟩ := h _ rfl
      cases hx
  | string s => exact ⟨fun _ _ hn => (nomatch hn), fun _ => rfl⟩
  | boolean b => exact ⟨fun _ _ hn => (nomatch hn), fun _ => rfl⟩
  | node id => exact ⟨fun _ _ hn => (nomatch hn), fun _ => rfl⟩
  | nodes ids => exact ⟨fun _ _ hn => (nomatch hn), fun _ => rfl⟩
  | json d => exact ⟨fun _ _ hn => (nomatch hn), fun _ => rfl⟩

theorem encode?_isSome_iff (v : PropertyValue) : v.encode?.isSome ↔ v.Finite := by
  rw [encode?, Option.isSome_map]
  exact toJson?_isSome_iff v

/-! ## Values that are read -/

/-- The tags make finite values only. -/
theorem ofTag?_finite {tag : String} {payload : Json} {v : PropertyValue}
    (h : ofTag? tag payload = some (some v)) : v.Finite := by
  rintro n rfl
  unfold ofTag? at h
  split at h
  · cases payload <;> cases h
  · split at h
    · exact ⟨_, (PropertyValue.number.inj (Option.some.inj (Option.some.inj h))).symm⟩
    · cases h
  · split at h <;> cases h
  · obtain ⟨id, -, hid⟩ := Option.map_eq_some_iff.mp (Option.some.inj h)
    cases hid
  · split at h
    · obtain ⟨ids, -, hids⟩ := Option.map_eq_some_iff.mp (Option.some.inj h)
      cases hids
    · cases h
  · cases h
  · cases h

/-- Plain JSON makes finite values only. -/
theorem ofPlain?_finite {d : Document} {v : PropertyValue} (h : ofPlain? d = some v) :
    v.Finite := by
  rintro n rfl
  unfold ofPlain? at h
  split at h
  · cases h
  · cases h
  · cases h
  · exact ⟨_, (PropertyValue.number.inj (Option.some.inj h)).symm⟩
  · cases h
  · cases h

/-- Every value that a text is read as can be written. -/
theorem decode?_finite {raw : String} {v : PropertyValue} (h : decode? raw = some v) :
    v.Finite := by
  obtain ⟨d, -, hd⟩ := Option.bind_eq_some_iff.mp h
  unfold ofDocument? at hd
  split at hd
  · next tag payload _ _ =>
    cases htag : ofTag? tag payload with
    | none =>
      rw [htag] at hd
      exact ofPlain?_finite hd
    | some read =>
      rw [htag, Option.getD_some] at hd
      exact ofTag?_finite (hd ▸ htag)
  · exact ofPlain?_finite hd

/-- A stored text is read as the value it was written for, up to its doubles, if the value's payload
leaves room for the tag, and as nothing otherwise. -/
theorem decode?_of_encode? {v : PropertyValue} {raw : String} (h : v.encode? = some raw) :
    decode? raw = if v.payloadDepth ≤ 126 then some v.reread else none := by
  obtain ⟨j, hj, rfl⟩ := Option.map_eq_some_iff.mp h
  obtain ⟨tag, payload, rfl, hcanonical, htag, hdepth⟩ := toJson?_eq_tagged hj
  rw [decode?_tagged hcanonical htag]
  by_cases hle : payload.depth ≤ 126
  · rw [if_pos hle, if_pos (hdepth.mp hle)]
  · rw [if_neg hle, if_neg fun hv => hle (hdepth.mpr hv)]

/-- A stored text stands for no other value than the one it was written for is read again as. -/
theorem eq_reread_of_encode? {v w : PropertyValue} {raw : String} (h : v.encode? = some raw)
    (hw : decode? raw = some w) : w = v.reread := by
  rw [decode?_of_encode? h] at hw
  by_cases hdepth : v.payloadDepth ≤ 126
  · rw [if_pos hdepth] at hw
    exact (Option.some.inj hw).symm
  · rw [if_neg hdepth] at hw
    cases hw

/-- A value has a stored text if and only if it is finite. The text is read as the value, each of
its doubles as its notation is read, if its payload nests at most 126 levels deep, and as nothing
otherwise; so it is the value itself if its doubles are read back. A value that any text is read as
has a stored text of its own, and so comes back unchanged within that depth, if its doubles are read
back. -/
theorem decode?_encode? (v : PropertyValue) :
    (v.encode?.isSome ↔ v.Finite) ∧
    (∀ stored, v.encode? = some stored →
      decode? stored = (if v.payloadDepth ≤ 126 then some v.reread else none) ∧
      (v.ReadsBack → decode? stored = if v.payloadDepth ≤ 126 then some v else none)) ∧
    (∀ raw, decode? raw = some v →
      ∃ stored, v.encode? = some stored ∧
        (v.payloadDepth ≤ 126 → v.ReadsBack → decode? stored = decode? raw)) := by
  have hread : ∀ stored, v.encode? = some stored → v.ReadsBack →
      decode? stored = if v.payloadDepth ≤ 126 then some v else none := by
    intro stored h hback
    rw [decode?_of_encode? h, (reread_eq_iff v).mpr hback]
  refine ⟨encode?_isSome_iff v, fun stored h => ⟨decode?_of_encode? h, hread stored h⟩,
    fun raw hraw => ?_⟩
  obtain ⟨stored, hstored⟩ :=
    Option.isSome_iff_exists.mp ((encode?_isSome_iff v).mpr (decode?_finite hraw))
  refine ⟨stored, hstored, fun hdepth hback => ?_⟩
  rw [hread stored hstored hback, if_pos hdepth, hraw]

/-- A document with the number 2.5 in it comes back as it was. -/
theorem decode?_encode?_list :
    let x : Binary64 := ⟨false, 5 * 2 ^ 50, -51, by decide⟩
    let d : Document := ⟨.array [.array [.number (.double x)], .string "milk"], rfl⟩
    (PropertyValue.json d).ReadsBack ∧ ∃ stored, (PropertyValue.json d).encode? = some stored ∧
      decode? stored = some (.json d) := by
  intro x d
  have hback : (PropertyValue.json d).ReadsBack := by decide +kernel
  obtain ⟨-, hread, -⟩ := decode?_encode? (.json d)
  exact ⟨hback, _, rfl, (hread _ rfl).2 hback⟩

end PropertyValue

end TagGraph
