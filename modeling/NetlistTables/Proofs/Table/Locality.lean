import NetlistTables.Proofs.Table.Emitted

/-!
# Emission is local

A file is put together from pieces: each primitive has two, and three texts that are the same for
all tables stand around them. The writer carries its level from one primitive to the next, but what
it writes for a primitive closes all lists that it opens, whatever the names and values hold. So the
level at which a primitive is written does not depend on those before it, and neither does a piece,
but for the position that an enumerator is set to. A table that grows keeps the pieces that it has,
and a primitive that changes takes nothing but its own pieces with it (`emission_local`).
-/

namespace NetlistTables.Table

open Code Layout Output

/-! ## The level behind a primitive -/

section Level

variable {level : Nat}

theorem levelAfter_map {α : Type} {f : α → Fragment} (h : ∀ x, (f x).levelAfter level = level)
    (xs : List α) : levelAfter level (xs.map f) = level := by
  rw [List.map_eq_flatMap]
  exact levelAfter_flatMap h xs

theorem levelAfter_stringArray (symbol : String) (values : List String) :
    levelAfter level (Source.stringArray symbol values) = level :=
  levelAfter_group rfl (levelAfter_map (fun _ => rfl) values)

/-- A part that is left out leaves the level as well. -/
theorem levelAfter_ite {c : Prop} [Decidable c] {fs : List Fragment}
    (h : levelAfter level fs = level) : levelAfter level (if c then [] else fs) = level := by
  split
  · rfl
  · exact h

theorem levelAfter_sourceBlock (p : Primitive) :
    levelAfter level (fragments (Source.block p)) = level := by
  have hblock : fragments (Source.block p) = .blank :: .comment p.name :: Source.arrays p :=
    fragments_map_put _
  have hattributes (names defaults : List String) :
      levelAfter level (Source.stringArray p.attributeNamesSymbol names ++
        Source.stringArray p.attributeDefaultsSymbol defaults) = level := by
    rw [levelAfter_append, levelAfter_stringArray, levelAfter_stringArray]
  rw [hblock]
  change levelAfter level (Source.arrays p) = level
  rw [Source.arrays, levelAfter_append, levelAfter_append, levelAfter_ite (hattributes _ _),
    levelAfter_ite (levelAfter_stringArray _ _), levelAfter_ite (levelAfter_stringArray _ _)]

theorem levelAfter_enumeration (names : List String) :
    levelAfter level (Header.enumeration names) = level := by
  rw [Header.enumeration, List.mapIdx_eq_zipIdx_map]
  exact levelAfter_group rfl (levelAfter_map (fun _ => rfl) names.zipIdx)

theorem levelAfter_headerBlock (c : Config) (p : Primitive) :
    levelAfter level (fragments (Header.block c p)) = level := by
  have hblock : fragments (Header.block c p) = Header.pinEnumerations c p := fragments_map_put _
  have hinputs : levelAfter level (.blank :: .comment (p.name ++ ": inputs") ::
      Header.pinEnumeration c p p.inputNames) = level := levelAfter_enumeration _
  have houtputs : levelAfter level (.comment (p.name ++ ": outputs") ::
      Header.pinEnumeration c p p.outputNames) = level := levelAfter_enumeration _
  rw [hblock, Header.pinEnumerations, levelAfter_append, levelAfter_ite hinputs,
    levelAfter_ite houtputs]

end Level

/-! ## The pieces of a file -/

/-- What fragments are written as from a level on. -/
def written (c : Config) (level : Nat) (fs : List Fragment) : String :=
  Layout.text c.indent (layout level fs)

theorem written_append (c : Config) {level level' : Nat} {fs : List Fragment}
    (h : levelAfter level fs = level') (gs : List Fragment) :
    written c level (fs ++ gs) = written c level fs ++ written c level' gs := by
  rw [written, layout_append, h, text_append, written, written]

theorem written_flatMap (c : Config) {level : Nat} {α : Type} {f : α → List Fragment}
    (h : ∀ x, levelAfter level (f x) = level) (xs : List α) :
    written c level (xs.flatMap f) = String.join (xs.map fun x => written c level (f x)) := by
  rw [written, layout_flatMap h, text_flatMap]
  rfl

/-- The pieces that the files of a kind are put together from. -/
structure Pieces where
  opening : String
  /-- The first piece of a primitive, at its position in the table. -/
  first : Nat → Primitive → String
  middle : String
  /-- The second piece of a primitive. -/
  second : Primitive → String
  closing : String

namespace Pieces

variable (s : Pieces)

/-- The file of a table, put together. -/
def assemble (t : List Primitive) : String :=
  s.opening ++ String.join (t.mapIdx s.first) ++ s.middle ++ String.join (t.map s.second) ++
    s.closing

theorem assemble_append (t u : List Primitive) : s.assemble (t ++ u) =
    s.opening ++ (String.join (t.mapIdx s.first) ++
        String.join (u.mapIdx fun k => s.first (t.length + k))) ++
      s.middle ++ (String.join (t.map s.second) ++ String.join (u.map s.second)) ++ s.closing := by
  simp only [assemble, List.mapIdx_append, List.map_append, String.join_append, Nat.add_comm]

/-- The pieces of one primitive in a table. -/
theorem exists_assemble_eq (before behind : List Primitive) : ∃ x y z : String, ∀ p,
    s.assemble (before ++ p :: behind) =
      x ++ s.first before.length p ++ y ++ s.second p ++ z := by
  refine ⟨s.opening ++ String.join (before.mapIdx s.first),
    String.join (behind.mapIdx fun k => s.first (before.length + (k + 1))) ++ s.middle ++
      String.join (before.map s.second),
    String.join (behind.map s.second) ++ s.closing, fun p => ?_⟩
  simp only [assemble_append, List.mapIdx_cons, List.map_cons, String.join_cons,
    String.append_assoc, Nat.add_zero]

end Pieces

/-- The pieces of sources: first the string arrays of the primitives, then their records. -/
def Source.pieces (c : Config) : Pieces where
  opening := written c 0 (opening c)
  first _ p := written c 0 (fragments (block p))
  middle := written c 0 (tableOpening c)
  second p := written c 1 (record c p)
  closing := written c 1 [.blockClose]

/-- The pieces of headers: first the enumerators of the primitives, then the enumerations of their
sub-pins. -/
def Header.pieces (c : Config) : Pieces where
  opening := written c 0 (opening c ++ [.enumOpen none])
  first k p := written c 1 [.enumerator (c.primitiveEnumerator p) (some k)]
  middle := written c 1 [.blockClose]
  second p := written c 0 (fragments (block c p))
  closing := written c 0 (closing c)

/-- The pieces of the files of a kind. -/
def FileKind.pieces : FileKind → Config → Pieces
  | source => Source.pieces
  | header => Header.pieces

/-- A piece that is the same at all positions. -/
theorem mapIdx_eq_map {α β : Type} (f : α → β) (xs : List α) :
    xs.mapIdx (fun _ x => f x) = xs.map f := by
  induction xs with
  | nil => rfl
  | cons x xs ih => rw [List.mapIdx_cons, ih, List.map_cons]

/-- **The source of a table is put together from its pieces.** -/
theorem text_source (c : Config) (t : List Primitive) :
    text .source c t = (Source.pieces c).assemble t := by
  have hscript : fragments (Source.script c t) =
      Source.opening c ++ ((t.flatMap fun p => fragments (Source.block p)) ++
        (Source.tableOpening c ++ (t.flatMap (Source.record c) ++ [.blockClose]))) := by
    rw [Source.script, fragments_append, fragments_append, fragments_map_put, fragments_flatMap,
      fragments_map_put, Source.tableDefinition, List.append_assoc, List.append_assoc]
  have hopening : levelAfter 0 (Source.opening c) = 0 :=
    levelAfter_map (f := Fragment.systemHeader) (fun _ => rfl) c.sourceHeaders
  have hblocks : levelAfter 0 (t.flatMap fun p => fragments (Source.block p)) = 0 :=
    levelAfter_flatMap levelAfter_sourceBlock t
  have htable : levelAfter 0 (Source.tableOpening c) = 1 := rfl
  have hrecords : levelAfter 1 (t.flatMap (Source.record c)) = 1 :=
    levelAfter_flatMap (fun _ => rfl) t
  calc text .source c t
    _ = written c 0 (fragments (Source.script c t)) := rfl
    _ = written c 0 (Source.opening c) ++
          (written c 0 (t.flatMap fun p => fragments (Source.block p)) ++
            (written c 0 (Source.tableOpening c) ++
              (written c 1 (t.flatMap (Source.record c)) ++ written c 1 [.blockClose]))) := by
      rw [hscript, written_append c hopening, written_append c hblocks, written_append c htable,
        written_append c hrecords]
    _ = (Source.pieces c).assemble t := by
      rw [written_flatMap c levelAfter_sourceBlock, written_flatMap c fun _ => rfl]
      simp only [Pieces.assemble, Source.pieces, mapIdx_eq_map, String.append_assoc]

/-- **The header of a table is put together from its pieces.** -/
theorem text_header (c : Config) (t : List Primitive) :
    text .header c t = (Header.pieces c).assemble t := by
  -- the enumerators are written one by one, each with its position
  let member (x : Primitive × Nat) : List Fragment :=
    [.enumerator (c.primitiveEnumerator x.1) (some x.2)]
  have hmembers : Header.enumeration (t.map c.primitiveEnumerator) =
      [.enumOpen none] ++ (t.zipIdx.flatMap member ++ [.blockClose]) := by
    rw [Header.enumeration, List.mapIdx_eq_zipIdx_map, List.zipIdx_map, List.map_map,
      List.map_eq_flatMap]
    rfl
  have hscript : fragments (Header.script c t) =
      Header.opening c ++ [.enumOpen none] ++ (t.zipIdx.flatMap member ++ ([.blockClose] ++
        ((t.flatMap fun p => fragments (Header.block c p)) ++ Header.closing c))) := by
    rw [Header.script, fragments_append, fragments_append, fragments_map_put, fragments_flatMap,
      fragments_map_put, hmembers]
    simp only [List.append_assoc]
  have hopening : levelAfter 0 (Header.opening c ++ [.enumOpen none]) = 1 := rfl
  have henumerators : levelAfter 1 (t.zipIdx.flatMap member) = 1 :=
    levelAfter_flatMap (fun _ => rfl) t.zipIdx
  have hclose : levelAfter 1 [.blockClose] = 0 := rfl
  have hblocks : levelAfter 0 (t.flatMap fun p => fragments (Header.block c p)) = 0 :=
    levelAfter_flatMap (levelAfter_headerBlock c) t
  calc text .header c t
    _ = written c 0 (fragments (Header.script c t)) := rfl
    _ = written c 0 (Header.opening c ++ [.enumOpen none]) ++
          (written c 1 (t.zipIdx.flatMap member) ++ (written c 1 [.blockClose] ++
            (written c 0 (t.flatMap fun p => fragments (Header.block c p)) ++
              written c 0 (Header.closing c)))) := by
      rw [hscript, written_append c hopening, written_append c henumerators,
        written_append c hclose, written_append c hblocks]
    _ = (Header.pieces c).assemble t := by
      rw [written_flatMap c (levelAfter_headerBlock c), written_flatMap c fun _ => rfl]
      simp only [Pieces.assemble, Header.pieces, List.mapIdx_eq_zipIdx_map, String.append_assoc,
        member]

/-- **Emission is local to each primitive.** What is stored for a table, valid or not, is put
together from texts that only the names around the table decide and from the pieces of its
primitives. Those of a source do not depend on the position either. So a table `t` keeps its pieces
when a table `u` is set behind it, and of two tables that differ in one primitive the texts differ
in the pieces of that primitive. -/
theorem emission_local (kind : FileKind) (c : Config) :
    let s := kind.pieces c
    let stored (t : List Primitive) := (emit kind c t Device.unlimited).sink.stored
    (∀ i j, (FileKind.source.pieces c).first i = (FileKind.source.pieces c).first j) ∧
      (∀ t, (emit kind c t Device.unlimited).result = .ok () ∧
        stored t = (s.opening ++ String.join (t.mapIdx s.first) ++ s.middle ++
          String.join (t.map s.second) ++ s.closing).toUTF8) ∧
      (∀ t u, stored (t ++ u) = (s.opening ++ (String.join (t.mapIdx s.first) ++
          String.join (u.mapIdx fun k => s.first (t.length + k))) ++ s.middle ++
        (String.join (t.map s.second) ++ String.join (u.map s.second)) ++ s.closing).toUTF8) ∧
      ∀ before behind, ∃ x y z : String, ∀ p, stored (before ++ p :: behind) =
        (x ++ s.first before.length p ++ y ++ s.second p ++ z).toUTF8 := by
  intro s stored
  have hstored (t : List Primitive) : stored t = (s.assemble t).toUTF8 := by
    refine (emit_unlimited kind c t).2.trans (congrArg String.toUTF8 ?_)
    cases kind with
    | source => exact text_source c t
    | header => exact text_header c t
  refine ⟨fun i j => rfl, fun t => ⟨(emit_unlimited kind c t).1, hstored t⟩, fun t u => ?_,
    fun before behind => ?_⟩
  · rw [hstored, s.assemble_append]
  · obtain ⟨x, y, z, h⟩ := s.exists_assemble_eq before behind
    exact ⟨x, y, z, fun p => by rw [hstored, h]⟩

/-- The position of a primitive stands in its piece of the header. -/
example : (Header.pieces .standard).first 3 ⟨"VCC", [], [], [.bit "O"]⟩ =
    "\tNETLIST_XIL_VCC = 3,\n" := by
  decide

end NetlistTables.Table
