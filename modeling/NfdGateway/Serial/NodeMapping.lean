import NfdGateway.Serial.Dataset

/-! Where the sensor nodes are: the table by node id, and the texts that are given out under
`/wsn/location`. -/
namespace NfdGateway.Serial

open StdString List Option Function

structure NodeMapping where
  expire : ℤ
  coordinate : Point
deriving DecidableEq

/-- `nodeID_mapping_table`, with `none` for what was not written yet, and `location_map`. -/
structure NodeMappings where
  nodeIDMappingTable : UInt16 → Option NodeMapping := fun _ => none
  locationMap : List Char → Option (List Char) := fun _ => none

def idText (id : UInt16) : List Char := printInt id.toNat

def coordinateText (p : Point) : List Char :=
  '(' :: (printInt p.x.toNat ++ ',' :: (printInt p.y.toNat ++ [')']))

/-- A mapping message; `none` where the table is left. The insertion does not replace a text. -/
def NodeMappings.onMapping (m : NodeMappings) (node : NodeInfo) : Option NodeMappings :=
  if 256 ≤ node.nodeID.toNat then none
  else
    let coordinate := node.coordinate.leftUp
    let key := idText node.nodeID
    some {
      nodeIDMappingTable := update m.nodeIDMappingTable node.nodeID (some ⟨5, coordinate⟩)
      locationMap := update m.locationMap key
        (some ((m.locationMap key).getD (coordinateText coordinate))) }

def firstReport (nodes : List NodeInfo) (id : UInt16) : Option Point :=
  (nodes.find? (·.nodeID = id)).map (·.coordinate.leftUp)

def lastReport (nodes : List NodeInfo) (id : UInt16) : Option Point := firstReport nodes.reverse id

lemma printInt_injective {v w : ℕ} (hv : v < 2 ^ 31) (hw : w < 2 ^ 31)
    (h : printInt v = printInt w) : v = w := by
  have hread : ∀ u : ℕ, u < 2 ^ 31 → stoi (printInt u) = some (u : ℤ) :=
    fun u hu => stoi_printInt ⟨by omega, by omega⟩
  have heq := (hread v hv).symm.trans ((congrArg stoi h).trans (hread w hw))
  simpa using heq

lemma toNat_lt_int (v : UInt16) : v.toNat < 2 ^ 31 :=
  v.toNat_lt.trans (by decide)

lemma idText_injective {a b : UInt16} (h : idText a = idText b) : a = b :=
  UInt16.toNat_inj.mp (printInt_injective (toNat_lt_int a) (toNat_lt_int b) h)

lemma coordinateText_injective {p q : Point} (h : coordinateText p = coordinateText q) : p = q := by
  have hcomma : ∀ v : ℕ, ',' ∉ printInt v := fun v => not_mem_printInt v (by decide) (by decide)
  obtain ⟨hx, -, hy⟩ := (append_cons_inj_of_notMem (hcomma _) (by simp [hcomma])).mp (cons.inj h).2
  have hx := UInt16.toNat_inj.mp (printInt_injective (toNat_lt_int _) (toNat_lt_int _) hx)
  have hy := UInt16.toNat_inj.mp
    (printInt_injective (toNat_lt_int _) (toNat_lt_int _) (append_cancel_right hy))
  cases p
  cases q
  simp_all

lemma firstReport_concat (nodes : List NodeInfo) (node : NodeInfo) (id : UInt16) :
    firstReport (nodes ++ [node]) id = (firstReport nodes id).or
      (if node.nodeID = id then some node.coordinate.leftUp else none) := by
  unfold firstReport
  rw [find?_append, Option.map_or]
  by_cases hid : node.nodeID = id <;> simp [hid]

lemma lastReport_concat (nodes : List NodeInfo) (node : NodeInfo) (id : UInt16) :
    lastReport (nodes ++ [node]) id =
      if node.nodeID = id then some node.coordinate.leftUp else lastReport nodes id := by
  by_cases hid : node.nodeID = id <;> simp [lastReport, firstReport, hid]

/-- The table has the last reports, the texts are those of the first. -/
lemma onMapping_run {nodes : List NodeInfo} (h : ∀ node ∈ nodes, node.nodeID.toNat < 256) :
    ∃ m, nodes.foldlM NodeMappings.onMapping {} = some m ∧ ∀ id,
      m.nodeIDMappingTable id = (lastReport nodes id).map (⟨5, ·⟩) ∧
      m.locationMap (idText id) = (firstReport nodes id).map coordinateText := by
  induction nodes using List.reverseRecOn with
  | nil => exact ⟨{}, rfl, fun _ => ⟨rfl, rfl⟩⟩
  | append_singleton nodes node ih =>
    obtain ⟨m, hm, hspec⟩ := ih fun n hn => h n (mem_append_left _ hn)
    have hid := h node (by simp)
    have hstep : m.onMapping node = _ := if_neg (Nat.not_le.mpr hid)
    have hrun : (nodes ++ [node]).foldlM NodeMappings.onMapping {} = m.onMapping node := by
      rw [foldlM_append, hm]
      simp
    refine ⟨_, hrun.trans hstep, fun id => ?_⟩
    obtain ⟨htable, htext⟩ := hspec id
    rw [lastReport_concat, firstReport_concat]
    by_cases he : node.nodeID = id
    · subst he
      refine ⟨by simp, ?_⟩
      dsimp only
      rw [update_self, htext]
      cases firstReport nodes node.nodeID <;> simp
    · have hkey : idText id ≠ idText node.nodeID := fun hk => he (idText_injective hk).symm
      dsimp only
      rw [update_of_ne (Ne.symm he), update_of_ne hkey, htable, htext]
      simp [he]

/-- The text that is given out for each node is that of its most recent report. -/
def LocationsCurrent (nodes : List NodeInfo) : Prop :=
  ∃ m, nodes.foldlM NodeMappings.onMapping {} = some m ∧ ∀ id p, lastReport nodes id = some p →
    m.nodeIDMappingTable id = some ⟨5, p⟩ ∧ m.locationMap (idText id) = some (coordinateText p)

/-- The texts are current as long as no node has moved away from where it first was. -/
theorem locations_current_iff {nodes : List NodeInfo}
    (h : ∀ node ∈ nodes, node.nodeID.toNat < 256) :
    LocationsCurrent nodes ↔ ∀ id, lastReport nodes id = firstReport nodes id := by
  obtain ⟨m, hm, hspec⟩ := onMapping_run h
  have hreported : ∀ id, lastReport nodes id = none ↔ firstReport nodes id = none := by
    intro id
    simp [lastReport, firstReport]
  constructor
  · rintro ⟨m', hm', hcurrent⟩ id
    obtain rfl : m = m' := some.inj (hm.symm.trans hm')
    cases hlast : lastReport nodes id with
    | none => exact ((hreported id).mp hlast).symm
    | some p =>
      have htext := (hcurrent id p hlast).2
      rw [(hspec id).2, Option.map_eq_some_iff] at htext
      obtain ⟨q, hq, hpq⟩ := htext
      rw [hq, coordinateText_injective hpq]
  · intro hsame
    refine ⟨m, hm, fun id p hp => ?_⟩
    rw [(hspec id).1, (hspec id).2, ← hsame id, hp]
    exact ⟨rfl, rfl⟩

def movedNode : List NodeInfo := [⟨⟨⟨1, 2⟩, ⟨0, 0⟩⟩, 7⟩, ⟨⟨⟨3, 2⟩, ⟨0, 0⟩⟩, 7⟩]

theorem moved_node_stale : ¬ LocationsCurrent movedNode := by
  rintro ⟨m, hm, hcurrent⟩
  obtain ⟨m', hm', hspec⟩ : ∃ m, movedNode.foldlM _ _ = some m ∧ _ := onMapping_run (by decide)
  obtain rfl : m = m' := some.inj (hm.symm.trans hm')
  have htext := (hspec 7).2.symm.trans (hcurrent 7 ⟨3, 2⟩ (by decide)).2
  exact absurd htext (by decide)

/-- Two nodes, one of which reports twice from where it is. -/
theorem locations_current_iff_resting :
    LocationsCurrent [⟨⟨⟨1, 2⟩, ⟨0, 0⟩⟩, 7⟩, ⟨⟨⟨3, 2⟩, ⟨0, 0⟩⟩, 8⟩, ⟨⟨⟨1, 2⟩, ⟨0, 0⟩⟩, 7⟩] := by
  refine (locations_current_iff (by decide)).mpr fun id => ?_
  by_cases h7 : id = 7
  · subst h7
    decide
  by_cases h8 : id = 8
  · subst h8
    decide
  · simp [lastReport, firstReport, Ne.symm h7, Ne.symm h8]

end NfdGateway.Serial
