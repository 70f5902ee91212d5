import ModelAtlas.Proofs.Source.Plain.Sources

/-!
# Places of classes

Classes that share no byte are told apart by their bytes, so each is found again. The classes of a
plain source are such: every declaration ends before the next one starts.
-/

namespace ModelAtlas.Source

/-! ### Classes of a file -/

/-- Classes that hold something and share no byte, as nodes beside each other in one tree do. -/
structure Apart (classes : List ClassDecl) : Prop where
  proper : ∀ c ∈ classes, c.bytes.start < c.bytes.stop
  disjoint : classes.Pairwise fun c d => c.bytes.stop ≤ d.bytes.start ∨ d.bytes.stop ≤ c.bytes.start

theorem find?_bytes {classes : List ClassDecl} (apart : Apart classes) {c : ClassDecl}
    (member : c ∈ classes) : classes.find? (·.bytes == c.bytes) = some c := by
  induction classes with
  | nil => cases member
  | cons first rest ih =>
    obtain ⟨proper, disjoint⟩ := apart
    rw [List.forall_mem_cons] at proper
    rw [List.pairwise_cons] at disjoint
    rcases List.mem_cons.mp member with rfl | later
    · exact List.find?_cons_of_pos (beq_self_eq_true _)
    · have other : first.bytes ≠ c.bytes := by
        intro same
        have sides := disjoint.1 c later
        have nonempty := proper.2 c later
        rw [same] at sides
        omega
      rw [List.find?_cons_of_neg (by simpa using other), ih ⟨proper.2, disjoint.2⟩ later]

/-- The bytes of a class lead back to it. -/
theorem classAt_of_mem {f : SourceFile} (apart : Apart f.classes) {c : ClassDecl}
    (member : c ∈ f.classes) : f.classAt c.bytes = some c := find?_bytes apart member

namespace Plain

/-! ### Plain declarations -/

theorem map_declareRows (stop m : Mark) (assignments : List Assignment) :
    (declareRows stop m assignments).1.map (fun a => (a.name, a.value)) =
      assignments.map fun a => (String.ofList a.name, a.value.expr) := by
  induction assignments generalizing stop m with
  | nil => rfl
  | cons a rest ih =>
    rw [declareRows, List.map_cons, List.map_cons, ih]

/-- Assignments end somewhere behind their header and before the end of the rows. -/
theorem offset_declareRows {stop m : Mark} (before : stop.offset ≤ m.offset)
    (assignments : List Assignment) :
    stop.offset ≤ (declareRows stop m assignments).2.offset ∧
      (declareRows stop m assignments).2.offset ≤
        (past m (assignments.flatMap fun a => '\t' :: a.spell ++ ['\n'])).offset := by
  induction assignments generalizing stop m with
  | nil => exact ⟨Nat.le_refl _, before⟩
  | cons a rest ih =>
    -- the row ends at a mark, and the next row starts behind a line break
    have row : past m ('\t' :: a.spell ++ ['\n']) = past (past (past m ['\t']) a.spell) ['\n'] := by
      rw [past_append]
      rfl
    obtain ⟨behind, within⟩ := ih (offset_le_past (past (past m ['\t']) a.spell) ['\n'])
    rw [declareRows, List.flatMap_cons, past_append, row]
    refine ⟨?_, within⟩
    have tab := offset_le_past m ['\t']
    have text := offset_le_past (past m ['\t']) a.spell
    exact Nat.le_trans before (Nat.le_trans tab (Nat.le_trans text behind))

theorem past_spell (m : Mark) (c : Plain.Class) :
    past m c.spell =
      past (past (past (past m "class ".toList) c.heading) ['\n'])
        (c.assignments.flatMap fun a => '\t' :: a.spell ++ ['\n']) := by
  delta Class.spell
  rw [List.append_assoc, past_append, past_append]
  rfl

theorem bytes_declare (m : Mark) (c : Plain.Class) :
    (c.declare m).bytes.start = m.offset ∧ m.offset < (c.declare m).bytes.stop ∧
      (c.declare m).bytes.stop ≤ (past m c.spell).offset := by
  have keyword := offset_lt_past m (show "class ".toList ≠ [] by decide)
  have heading := offset_le_past (past m "class ".toList) c.heading
  obtain ⟨behind, within⟩ := offset_declareRows
    (offset_le_past (past (past m "class ".toList) c.heading) ['\n']) c.assignments
  rw [past_spell]
  exact ⟨rfl, Nat.lt_of_lt_of_le keyword (Nat.le_trans heading behind), within⟩

theorem offset_le_of_mem_declare {m : Mark} {classes : List Plain.Class} {c : ClassDecl}
    (member : c ∈ declare m classes) : m.offset ≤ c.bytes.start := by
  induction classes generalizing m with
  | nil => cases member
  | cons first rest ih =>
    obtain ⟨start, proper, within⟩ := bytes_declare m first
    rcases List.mem_cons.mp member with rfl | later
    · omega
    · have behind := ih later
      omega

/-- Plain declarations share no byte. -/
theorem apart_declare (m : Mark) (classes : List Plain.Class) : Apart (declare m classes) := by
  induction classes generalizing m with
  | nil => exact ⟨nofun, .nil⟩
  | cons c rest ih =>
    obtain ⟨start, proper, within⟩ := bytes_declare m c
    obtain ⟨others, disjoint⟩ := ih (past m c.spell)
    refine ⟨List.forall_mem_cons.mpr ⟨by omega, others⟩, List.pairwise_cons.mpr ⟨?_, disjoint⟩⟩
    intro d later
    have behind := offset_le_of_mem_declare later
    exact .inl (by omega)

end Plain

/-- A text that spells plain classes declares just these classes. -/
theorem parse_of_spelled (path : String) {text : String} {classes : List Plain.Class}
    (plain : classes.all Plain.Class.isPlain) (spelled : text.toList = Plain.spell classes) :
    SourceFile.parse path text = ⟨path, { classes := Plain.declare {} classes }⟩ := by
  rw [SourceFile.parse, spelled, ofSource_spell plain]

theorem classes_parse_spell (path : String) {text : String} {classes : List Plain.Class}
    (plain : classes.all Plain.Class.isPlain) (spelled : text.toList = Plain.spell classes) :
    (SourceFile.parse path text).classes = Plain.declare {} classes := by
  rw [SourceFile.classes, parse_of_spelled path plain spelled]

end ModelAtlas.Source
