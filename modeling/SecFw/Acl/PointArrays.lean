import SecFw.Acl.WordArrays

/-!
This module contains the two passes over the end points of a dimension on their arrays: the count
that sizes the array of points, and the functions that fill it.
-/

namespace SecFw.Acl

structure PointTable where
  tempSegPoints : Cells UInt32
  segFlag : Cells Nat

def flatOps (segPoints : Cells UInt32) (pre_number_bits number_bits : Nat)
    : TableOps PointTable where
  same table num pos := do
    let cmp ←
      if pre_number_bits ≤ 32 then
        Arrays.segPointCompare32 segPoints (num * pre_number_bits / 32)
          table.tempSegPoints (pos * pre_number_bits / 32)
      else
        Arrays.segPointCompare64128 number_bits segPoints (num * number_bits / 32)
          table.tempSegPoints (pos * number_bits / 32)
    some (cmp == 0)
  flag table pos := table.segFlag.load pos
  setFlag table pos flag := do
    let segFlag ← table.segFlag.store pos flag
    some { table with segFlag := segFlag }
  assign table pos num := do
    let tempSegPoints ← Arrays.assign number_bits table.tempSegPoints (pos * number_bits / 32)
      segPoints (num * number_bits / 32) number_bits
    some { table with tempSegPoints := tempSegPoints }

structure HoldsEntries (cap : Nat) (table : PointTable) (es : List (SegmentPt n)) : Prop where
  words : table.tempSegPoints.Holds 0 (es.flatMap fun e => e.segmentpoint.toList)
  flags : table.segFlag.Holds 0 (es.map SegmentPt.flag)
  few : es.length ≤ cap
  wordsRoom : cap * n ≤ table.tempSegPoints.length
  flagsRoom : cap ≤ table.segFlag.length

section Flat

variable {segPoints : Cells UInt32} {points : List (Words n)} {cap : Nat} {table : PointTable}
  {es : List (SegmentPt n)}

theorem beq_segPointCompare64128 (p q : Words n)
    : (segPointCompare64128 p q == 0) = decide (p = q) := by
  rw [Bool.eq_iff_iff]
  simp

theorem holds_point (h : segPoints.Holds 0 (points.flatMap Words.toList)) {num : Nat}
    {p : Words n} (hp : points[num]? = some p) : segPoints.Holds (num * n) p.toList := by
  have := h.chunk (fun b _ => b.length_eq) hp
  rwa [Nat.zero_add] at this

theorem HoldsEntries.point (h : HoldsEntries cap table es) {pos : Nat} {e : SegmentPt n}
    (he : es[pos]? = some e) : table.tempSegPoints.Holds (pos * n) e.segmentpoint.toList := by
  have := h.words.chunk (fun b _ => b.segmentpoint.length_eq) he
  rwa [Nat.zero_add] at this

theorem HoldsEntries.flag (h : HoldsEntries cap table es) {pos : Nat} {e : SegmentPt n}
    (he : es[pos]? = some e) : table.segFlag.load pos = some e.flag := by
  have hpos : pos < es.length := (List.getElem?_eq_some_iff.mp he).choose
  have := h.flags pos (by rwa [List.length_map])
  rwa [Nat.zero_add, List.getElem?_map, he] at this

theorem length_flatMap_segmentpoint (es : List (SegmentPt n))
    : (es.flatMap fun e => e.segmentpoint.toList).length = es.length * n := by
  have := length_flatMap_toList (es.map SegmentPt.segmentpoint)
  rwa [List.flatMap_map, List.length_map] at this

theorem HoldsEntries.setFlag {pre suf : List (SegmentPt n)} {e : SegmentPt n}
    (h : HoldsEntries cap table (pre ++ e :: suf)) (flag : Nat)
    : ∃ segFlag, table.segFlag.store pre.length flag = some segFlag
        ∧ HoldsEntries cap ⟨table.tempSegPoints, segFlag⟩ (pre ++ { e with flag := flag } :: suf) := by
  have hlen : (pre ++ e :: suf).length ≤ table.segFlag.length := h.few.trans h.flagsRoom
  rcases h.flags.exists_set (by simpa using hlen)
    (by simp : pre.length < ((pre ++ e :: suf).map SegmentPt.flag).length) flag with
    ⟨segFlag, hstore, hlen', hflags⟩
  refine ⟨segFlag, hstore, ?_, ?_, ?_, h.wordsRoom, ?_⟩
  . simpa using h.words
  . simpa using hflags
  . simpa using h.few
  . rw [hlen']
    exact h.flagsRoom

theorem HoldsEntries.push (h : HoldsEntries cap table es) (hcap : es.length < cap) {p : Words n}
    {s : Nat} (hp : segPoints.Holds s p.toList) (flag : Nat)
    : ∃ tempSegPoints segFlag,
        Arrays.assign (32 * n) table.tempSegPoints (es.length * n) segPoints s (32 * n)
            = some tempSegPoints
          ∧ table.segFlag.store es.length flag = some segFlag
          ∧ HoldsEntries cap ⟨tempSegPoints, segFlag⟩ (es ++ [⟨p, flag⟩]) := by
  have hroom : es.length * n + n ≤ table.tempSegPoints.length := by
    have := Nat.mul_le_mul_right n (Nat.succ_le_of_lt hcap)
    rw [Nat.succ_mul] at this
    exact this.trans h.wordsRoom
  rcases exists_assign n hp hroom with ⟨tempSegPoints, hassign, hlen, hpoint, hframe⟩
  rcases h.flags.exists_push (by rw [List.length_map]; exact hcap.trans_le h.flagsRoom) flag with
    ⟨segFlag, hstore, hlen', hflags⟩
  rw [List.length_map] at hstore
  refine ⟨tempSegPoints, segFlag, hassign, hstore, ?_, ?_, ?_, ?_, ?_⟩
  . rw [List.flatMap_append, Cells.holds_append, length_flatMap_segmentpoint, Nat.zero_add]
    constructor
    . apply h.words.congr
      intro j _ hj
      rw [length_flatMap_segmentpoint] at hj
      exact hframe j (Or.inl (by omega))
    . simpa using hpoint
  . simpa using hflags
  . simpa using hcap
  . rw [hlen]
    exact h.wordsRoom
  . rw [hlen']
    exact h.flagsRoom

theorem flatOps_implements (cap : Nat) (hseg : segPoints.Holds 0 (points.flatMap Words.toList))
    {pre_number_bits : Nat} (hpre : pre_number_bits ≤ 32 → pre_number_bits = 32 ∧ n = 1)
    : (flatOps segPoints pre_number_bits (32 * n)).Implements points cap (HoldsEntries cap) := by
  constructor
  case same =>
    intro table es num pos p e hrep hp he
    have hpoint := holds_point hseg hp
    have hentry := hrep.point he
    simp only [flatOps]
    split
    . next hle =>
      rcases hpre hle with ⟨hbits, hn⟩
      have hone (k : Nat) : k * pre_number_bits / 32 = k * n := by
        rw [hbits, hn]
        omega
      rw [hone, hone, arrays_segPointCompare32 hn hpoint hentry]
      simp [beq_segPointCompare64128]
    . rw [bits_offset, bits_offset, arrays_segPointCompare64128 hpoint hentry]
      simp [beq_segPointCompare64128]
  case flag =>
    intro table es pos e hrep he
    exact hrep.flag he
  case setFlag =>
    intro table pre suf e hrep flag
    rcases hrep.setFlag flag with ⟨segFlag, hstore, hrep'⟩
    refine ⟨_, ?_, hrep'⟩
    simp only [flatOps, hstore, Option.bind_eq_bind, Option.bind_some]
  case push =>
    intro table es num p hrep hcap hp flag
    rcases hrep.push hcap (holds_point hseg hp) flag with
      ⟨tempSegPoints, segFlag, hassign, hstore, hrep'⟩
    refine ⟨⟨tempSegPoints, table.segFlag⟩, _, ?_, ?_, hrep'⟩
    . simp only [flatOps, bits_offset, hassign, Option.bind_eq_bind, Option.bind_some]
    . simp only [flatOps, hstore, Option.bind_eq_bind, Option.bind_some]

end Flat

structure SegmentPtCells where
  -- `segmentpt32_t`, `segmentpt64_t` and `segmentpt128_t`
  segmentpoint : Cells UInt32
  flag : Option Nat

def SegmentPt.cells (e : SegmentPt n) : SegmentPtCells where
  segmentpoint := Cells.filled e.segmentpoint.toList
  flag := some e.flag

namespace Arrays

def mallocPoints (count words : Nat) : List SegmentPtCells :=
  -- `malloc` of an array of points
  List.replicate count ⟨Cells.blank words, none⟩

def modifyPoint (tempPoints : List SegmentPtCells) (pos : Nat)
    (f : SegmentPtCells → Option SegmentPtCells) : Option (List SegmentPtCells) := do
  let point ← tempPoints[pos]?
  let point ← f point
  some (tempPoints.set pos point)

def setPointFlag (flag : Nat) (point : SegmentPtCells) : Option SegmentPtCells :=
  some { point with flag := some flag }

def assignPoint32 (segPoints : Cells UInt32) (num : Nat) (point : SegmentPtCells)
    : Option SegmentPtCells := do
  let w ← segPoints.load num
  let segmentpoint ← point.segmentpoint.store 0 w
  some { point with segmentpoint := segmentpoint }

def assignPoint64128 (global_number_bits number_bits : Nat) (segPoints : Cells UInt32) (num : Nat)
    (point : SegmentPtCells) : Option SegmentPtCells := do
  let segmentpoint ← assign global_number_bits point.segmentpoint 0 segPoints
    (num * number_bits / 32) number_bits
  some { point with segmentpoint := segmentpoint }

end Arrays

def points32Ops (segPoints : Cells UInt32) : TableOps (List SegmentPtCells) where
  same tempPoints num pos := do
    let point ← tempPoints[pos]?
    let x ← segPoints.load num
    let y ← point.segmentpoint.load 0
    some (x == y)
  flag tempPoints pos := do (← tempPoints[pos]?).flag
  setFlag tempPoints pos flag := Arrays.modifyPoint tempPoints pos (Arrays.setPointFlag flag)
  assign tempPoints pos num :=
    Arrays.modifyPoint tempPoints pos (Arrays.assignPoint32 segPoints num)

def points64128Ops (segPoints : Cells UInt32) (global_number_bits number_bits : Nat)
    : TableOps (List SegmentPtCells) where
  same tempPoints num pos := do
    let point ← tempPoints[pos]?
    let cmp ← Arrays.segPointCompare64128 global_number_bits segPoints (num * number_bits / 32)
      point.segmentpoint 0
    some (cmp == 0)
  flag tempPoints pos := do (← tempPoints[pos]?).flag
  setFlag tempPoints pos flag := Arrays.modifyPoint tempPoints pos (Arrays.setPointFlag flag)
  assign tempPoints pos num :=
    Arrays.modifyPoint tempPoints pos
      (Arrays.assignPoint64128 global_number_bits number_bits segPoints num)

structure FilledPoints (cap : Nat) (tempPoints : List SegmentPtCells) (es : List (SegmentPt n))
    : Prop where
  eq : tempPoints = es.map SegmentPt.cells ++ Arrays.mallocPoints (cap - es.length) n
  few : es.length ≤ cap

section Structs

variable {segPoints : Cells UInt32} {points : List (Words n)} {cap : Nat}
  {tempPoints : List SegmentPtCells} {es : List (SegmentPt n)}

theorem filledPoints_malloc (n cap : Nat)
    : FilledPoints cap (Arrays.mallocPoints cap n) ([] : List (SegmentPt n)) :=
  ⟨by simp, by simp⟩

theorem FilledPoints.get (h : FilledPoints cap tempPoints es) {pos : Nat} {e : SegmentPt n}
    (he : es[pos]? = some e) : tempPoints[pos]? = some e.cells := by
  have hpos : pos < es.length := (List.getElem?_eq_some_iff.mp he).choose
  rw [h.eq, List.getElem?_append_left (by simpa using hpos), List.getElem?_map, he]
  rfl

theorem FilledPoints.modify {pre suf : List (SegmentPt n)} {e e' : SegmentPt n}
    (h : FilledPoints cap tempPoints (pre ++ e :: suf))
    {f : SegmentPtCells → Option SegmentPtCells} (hf : f e.cells = some e'.cells)
    : ∃ tempPoints', Arrays.modifyPoint tempPoints pre.length f = some tempPoints'
        ∧ FilledPoints cap tempPoints' (pre ++ e' :: suf) := by
  have hentry : (pre ++ e :: suf)[pre.length]? = some e := by simp
  have hget := h.get hentry
  refine ⟨tempPoints.set pre.length e'.cells, ?_, ?_, by simpa using h.few⟩
  . simp only [Arrays.modifyPoint, hget, hf, Option.bind_eq_bind, Option.bind_some]
  . rw [h.eq]
    simp

theorem FilledPoints.push (h : FilledPoints cap tempPoints es) (hcap : es.length < cap)
    {f g : SegmentPtCells → Option SegmentPtCells} {point : SegmentPtCells} {e : SegmentPt n}
    (hf : f ⟨Cells.blank n, none⟩ = some point) (hg : g point = some e.cells)
    : ∃ t' t'', Arrays.modifyPoint tempPoints es.length f = some t'
        ∧ Arrays.modifyPoint t' es.length g = some t'' ∧ FilledPoints cap t'' (es ++ [e]) := by
  have hrest : Arrays.mallocPoints (cap - es.length) n
      = ⟨Cells.blank n, none⟩ :: Arrays.mallocPoints (cap - (es.length + 1)) n := by
    have : cap - es.length = cap - (es.length + 1) + 1 := by omega
    rw [this]
    rfl
  have heq := h.eq
  rw [hrest] at heq
  have hlen : es.length = (es.map SegmentPt.cells).length := by rw [List.length_map]
  refine ⟨tempPoints.set es.length point, tempPoints.set es.length e.cells, ?_, ?_, ?_, ?_⟩
  . have hget : tempPoints[es.length]? = some ⟨Cells.blank n, none⟩ := by
      rw [heq, hlen]
      simp
    simp only [Arrays.modifyPoint, hget, hf, Option.bind_eq_bind, Option.bind_some]
  . have hget : (tempPoints.set es.length point)[es.length]? = some point := by
      rw [List.getElem?_set_self]
      rw [heq, List.length_append, List.length_map, List.length_cons]
      omega
    simp only [Arrays.modifyPoint, hget, hg, Option.bind_eq_bind, Option.bind_some, List.set_set]
  . rw [heq]
    simp
  . simpa using hcap

theorem setPointFlag_cells (flag : Nat) (e : SegmentPt n)
    : Arrays.setPointFlag flag e.cells = some ({ e with flag := flag } : SegmentPt n).cells := rfl

theorem points32Ops_implements (cap : Nat) (hn : n = 1)
    (hseg : segPoints.Holds 0 (points.flatMap Words.toList))
    : (points32Ops segPoints).Implements points cap (FilledPoints cap) := by
  have hload {num : Nat} {p : Words n} (hp : points[num]? = some p) {w : UInt32}
      (hw : p.toList = [w]) : segPoints.load num = some w := by
    have hpoint := holds_point hseg hp
    rw [hw, hn, Nat.mul_one, Cells.holds_cons] at hpoint
    exact hpoint.1
  constructor
  case same =>
    intro tempPoints es num pos p e hrep hp he
    rcases List.length_eq_one_iff.mp (p.length_eq.trans hn) with ⟨x, hx⟩
    rcases List.length_eq_one_iff.mp (e.segmentpoint.length_eq.trans hn) with ⟨y, hy⟩
    have hfield : e.cells.segmentpoint.load 0 = some y := by
      simp [SegmentPt.cells, hy]
    have hiff : (x == y) = decide (p = e.segmentpoint) := by
      rw [Bool.eq_iff_iff, beq_iff_eq, decide_eq_true_eq]
      constructor
      . rintro rfl
        cases p
        cases e with
        | mk q flag =>
          cases q
          simp_all
      . intro heq
        rw [heq, hy] at hx
        simpa using hx.symm
    simp only [points32Ops, hrep.get he, hload hp hx, hfield, Option.bind_eq_bind,
      Option.bind_some, hiff]
  case flag =>
    intro tempPoints es pos e hrep he
    simp only [points32Ops, hrep.get he, Option.bind_eq_bind, Option.bind_some]
    rfl
  case setFlag =>
    intro tempPoints pre suf e hrep flag
    exact hrep.modify (setPointFlag_cells flag e)
  case push =>
    intro tempPoints es num p hrep hcap hp flag
    rcases List.length_eq_one_iff.mp (p.length_eq.trans hn) with ⟨w, hw⟩
    have hassign : Arrays.assignPoint32 segPoints num ⟨Cells.blank n, none⟩
        = some ⟨Cells.filled p.toList, none⟩ := by
      simp only [Arrays.assignPoint32, hload hp hw, Option.bind_eq_bind, Option.bind_some, hn]
      simp [Cells.store, Cells.blank, Cells.filled, hw]
    exact hrep.push hcap hassign rfl

theorem points64128Ops_implements (cap : Nat)
    (hseg : segPoints.Holds 0 (points.flatMap Words.toList))
    : (points64128Ops segPoints (32 * n) (32 * n)).Implements points cap (FilledPoints cap) := by
  constructor
  case same =>
    intro tempPoints es num pos p e hrep hp he
    have hentry : e.cells.segmentpoint.Holds 0 e.segmentpoint.toList := Cells.holds_filled _
    simp only [points64128Ops, hrep.get he, bits_offset, Option.bind_eq_bind, Option.bind_some,
      arrays_segPointCompare64128 (holds_point hseg hp) hentry, beq_segPointCompare64128]
  case flag =>
    intro tempPoints es pos e hrep he
    simp only [points64128Ops, hrep.get he, Option.bind_eq_bind, Option.bind_some]
    rfl
  case setFlag =>
    intro tempPoints pre suf e hrep flag
    exact hrep.modify (setPointFlag_cells flag e)
  case push =>
    intro tempPoints es num p hrep hcap hp flag
    have hroom : 0 + n ≤ (Cells.blank n : Cells UInt32).length := by simp
    rcases exists_assign n (holds_point hseg hp) hroom with
      ⟨destination, hcopy, hlen, hpoint, -⟩
    have hfilled := hpoint.eq_filled (by rw [hlen, Cells.length_blank, p.length_eq])
    have hassign : Arrays.assignPoint64128 (32 * n) (32 * n) segPoints num ⟨Cells.blank n, none⟩
        = some ⟨Cells.filled p.toList, none⟩ := by
      simp only [Arrays.assignPoint64128, bits_offset, hcopy, hfilled, Option.bind_eq_bind,
        Option.bind_some]
    exact hrep.push hcap hassign rfl

end Structs

end SecFw.Acl
