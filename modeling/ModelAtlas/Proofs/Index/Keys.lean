import ModelAtlas.Proofs.Files.Places
import ModelAtlas.Proofs.Index.Incremental

/-!
# Keys of discovered files

A rebuild attributes the records of a file to the path under which the file was found, an update looks
them up under the normal form of the path it is given. These are the same path if and only if no link
was followed below the root, nor a detour taken on the way to it.
-/

namespace ModelAtlas.Index

open Files Inheritance Model Source Std

/-! ### What a scan stores -/

theorem exists_path_of_stored {scan : Scan} (paths : List Path) {g : Graph} {id : String}
    {r : ModelRecord}
    (stored : (paths.foldl (fun g p => g.addAll (scan p.text)) g).models[id]? = some r) :
    g.models[id]? = some r ∨ ∃ p ∈ paths, r ∈ scan p.text := by
  induction paths generalizing g with
  | nil => exact Or.inl stored
  | cons p rest ih =>
    rcases ih stored with first | ⟨q, later, declares⟩
    · rw [Graph.getElem?_models_addAll, Option.or_eq_some_iff] at first
      rcases first with named | ⟨_, before⟩
      · exact Or.inr ⟨p, List.mem_cons_self, (mem_of_lastNamed named).1⟩
      · exact Or.inl before
    · exact Or.inr ⟨q, List.mem_cons_of_mem p later, declares⟩

theorem exists_source_of_stored {t : Tree} {roots : List Path} {id : String} {r : ModelRecord}
    (stored : (scanRoots t roots).models[id]? = some r) :
    ∃ p ∈ sourceFiles t roots, r ∈ scanFile t p.text := by
  obtain absurd | found := exists_path_of_stored (sourceFiles t roots) stored
  · simp at absurd
  · exact found

theorem mem_sourceFiles_iff {t : Tree} {roots : List Path} {p : Path} :
    p ∈ sourceFiles t roots ↔
      ∃ root ∈ roots, ∃ found, t.discover root sourcePattern = .ok found ∧ p ∈ found := by
  unfold sourceFiles
  rw [List.mem_flatMap]
  constructor
  · rintro ⟨root, isRoot, member⟩
    cases searched : t.discover root sourcePattern with
    | error e =>
      rw [searched] at member
      cases member
    | ok found =>
      rw [searched] at member
      exact ⟨root, isRoot, found, searched, member⟩
  · rintro ⟨root, isRoot, found, searched, member⟩
    refine ⟨root, isRoot, ?_⟩
    rw [searched]
    exact member

/-- Whoever declares something can be read, so its path leads somewhere. -/
theorem resolve_of_mem_scanFile {t : Tree} {parts : List String} (proper : parts ≠ [])
    (pieces : ∀ n ∈ parts, IsPiece n) {r : ModelRecord}
    (declares : r ∈ scanFile t (Path.ofParts parts).text) :
    ∃ place content, t.resolve parts = .ok place ∧ t.entry? place = some (.file content) := by
  unfold scanFile Tree.readText Tree.readBytes at declares
  rw [Path.walkPieces_text proper pieces] at declares
  split at declares
  · rename_i text read
    split at read
    · cases resolved : t.resolve parts with
      | error e =>
        rw [resolved] at read
        cases read
      | ok place =>
        rw [resolved] at read
        dsimp only at read
        split at read
        · rename_i content isFile
          exact ⟨place, content, rfl, isFile⟩
        · cases read
    · cases read
  · cases declares

/-- A text spells a file if what it is cleaned to leads there. -/
def Locates (t : Tree) (text : String) (place : List String) : Prop :=
  (Path.parse text).absolute = true ∧ t.resolve (Path.parse text).clean.parts = .ok place

theorem Locates.key {t : Tree} {text : String} {place : List String} (locates : Locates t text place) :
    t.key text = (Path.ofParts place).text := by
  obtain ⟨absolute, resolved⟩ := locates
  rw [← List.reverse_reverse (Path.parse text).clean.parts] at resolved
  have followed := Tree.follow_of_ok resolved []
  rw [List.append_nil] at followed
  rw [Tree.key, Tree.normalize_of_follow absolute followed]

/-- What is stored lies in a source that could be read. -/
theorem exists_found_of_stored {t : Tree} (formed : t.WellFormed) {roots : List Path} {id : String}
    {r : ModelRecord} (stored : (scanRoots t roots).models[id]? = some r) :
    ∃ parts place, Path.ofParts parts ∈ sourceFiles t roots ∧ parts ≠ [] ∧ (∀ n ∈ parts, IsPiece n) ∧
      r.path = (Path.ofParts parts).text ∧ t.resolve parts = .ok place ∧ place ≠ [] := by
  obtain ⟨p, isSource, declares⟩ := exists_source_of_stored stored
  obtain ⟨root, _, found, searched, member⟩ := mem_sourceFiles_iff.mp isSource
  obtain ⟨base, rest, there, rfl, isFound⟩ := Tree.found_of_mem_discover formed searched member
  have proper : base ++ rest ≠ [] := by simp [(isFound.reaches.names formed).1]
  have pieces := isFound.pieces_append formed
  obtain ⟨place, content, resolved, isFile⟩ := resolve_of_mem_scanFile proper pieces declares
  refine ⟨_, place, isSource, proper, pieces, path_of_mem_scanFile declares, resolved, ?_⟩
  rintro rfl
  cases isFile

/-! ### A file behind a linked root -/

theorem linkedHome_source :
    linkedHome.entry? ["ws", "a.py"] = some (.file sourceA) ∧
    linkedHome.IsPlace ["ws", "a.py"] ∧
    Tree.isExcluded (linkedHome.rulesAt ["ws"]) (.ofParts ["ws"]) ["ws", "a.py"] = false ∧
    linkedHome.contentAt ["ws", "a.py"] = some sourceA := by
  decide

theorem linkedHome_isSource : IsSource linkedHome homeRoots ["ws", "a.py"] := by
  obtain ⟨_, ⟨valid, _⟩, included, _⟩ := linkedHome_source
  have editable : Editable linkedHome homeRoots ["ws", "a.py"] :=
    editable_of_rootAt linkedHome_formed (List.mem_singleton.mpr rfl) linkedHome_rootAt
      (List.cons_ne_nil _ _) valid (by decide) included
  exact editable.isSource linkedHome_formed (homeRoots_rooted linkedHome_rootAt)

theorem linkedHome_found : ∃ found, linkedHome.discover (.parse "/home") sourcePattern = .ok found ∧
    Path.ofParts ["ws", "a.py"] ∈ found := by
  obtain ⟨_, _, _, content⟩ := linkedHome_source
  have rooted := homeRoots_rooted linkedHome_rootAt
  have member : Path.ofParts ["ws", "a.py"] ∈ sourceFiles linkedHome homeRoots :=
    (mem_sourceFiles linkedHome_formed rooted _).mpr
      ⟨_, rfl, content ▸ rfl, linkedHome_isSource⟩
  obtain ⟨root, isRoot, found, searched, member⟩ := mem_sourceFiles_iff.mp member
  rw [List.mem_singleton.mp isRoot] at searched
  exact ⟨found, searched, member⟩

theorem linkedHome_stored :
    ∃ r, (({} : ModelIndex).rebuild linkedHome homeRoots).2.graph.models["a"]? = some r ∧
      r.path = (Path.ofParts ["ws", "a.py"]).text := by
  obtain ⟨_, _, _, content⟩ := linkedHome_source
  obtain ⟨r, named⟩ := Option.isSome_iff_exists.mp
    (isSome_lastNamed_sourceA (Path.ofParts ["ws", "a.py"]).text)
  rw [← content, ← linkedHome_isSource.scanFile linkedHome_formed] at named
  refine ⟨r, ?_, path_of_mem_scanFile (mem_of_lastNamed named).1⟩
  exact (linkedHome_follows.current.reflects "a" r).mpr ⟨_, ⟨_, rfl, linkedHome_isSource⟩, named⟩

theorem linkedHome_locates : Locates linkedHome "/home/x/../a.py" ["ws", "a.py"] := by
  obtain ⟨formed, isLink, _⟩ := linkedHome_contents
  obtain ⟨isFile, _⟩ := linkedHome_source
  have parts : (Path.parse "/home/x/../a.py").clean.parts = ["home", "a.py"] := by decide
  refine ⟨by decide, ?_⟩
  rw [parts, Tree.resolve]
  exact (@Tree.walk_link linkedHome [] "home" "ws" (by decide) isLink 39 ["a.py"]).trans
    (@Tree.walk_of_present linkedHome formed 39 [] ["ws", "a.py"] (by simp [isFile])
      (by simp [isFile]))

/-! ### Where keys agree -/

/-- A discovered path is its own normal form just if it is a place: names, and no link among them. And
the records of a file are stored under the key that every spelling of it is looked up by just if the
path it was discovered under is a place. -/
theorem discovered_under_key_iff_isPlace {t : Tree} (formed : t.WellFormed) :
    (∀ (root : Path) (pattern : String) (found : List Path), t.discover root pattern = .ok found →
      ∀ p ∈ found, t.normalize p = p ↔ t.IsPlace p.parts) ∧
    ∀ (i : ModelIndex) (roots : List Path), i.rebuilding = false →
      ∀ id r, (i.rebuild t roots).2.graph.models[id]? = some r →
        ∃ p ∈ sourceFiles t roots, ∃ place, r.path = p.text ∧ t.resolve p.parts = .ok place ∧
          ∀ text, Locates t text place →
            (id ∈ (i.rebuild t roots).2.graph.owned (t.key text) ↔ t.IsPlace p.parts) := by
  refine ⟨fun _ _ _ searched _ member => Tree.normalize_eq_self_iff formed searched member, ?_⟩
  intro i roots idle id r stored
  have consistent := scanRoots_consistent t roots
  rw [ModelIndex.rebuild_of_idle t idle] at stored ⊢
  obtain ⟨parts, place, isSource, proper, pieces, path, resolved, below⟩ :=
    exists_found_of_stored formed stored
  refine ⟨_, isSource, place, path, resolved, ?_⟩
  intro text locates
  have names := (formed.isPlace_of_walk rfl resolved).1
  have here : r.path = (Path.ofParts place).text ↔ parts = place := by
    rw [path]
    constructor
    · exact Path.text_inj proper below pieces fun n member => (names n member).isPiece
    · rintro rfl
      rfl
  rw [locates.key, consistent.mem_owned]
  refine Iff.trans ?_ (here.trans (formed.resolve_eq_self_iff resolved))
  constructor
  · rintro ⟨s, also, located⟩
    rw [stored] at also
    cases also
    exact located
  · exact fun located => ⟨r, stored, located⟩

theorem linkedHome_keys :
    (∃ found, linkedHome.discover (.parse "/home") sourcePattern = .ok found ∧
      Path.ofParts ["ws", "a.py"] ∈ found ∧
      linkedHome.normalize (.ofParts ["ws", "a.py"]) = .ofParts ["ws", "a.py"]) ∧
    "a" ∈ (({} : ModelIndex).rebuild linkedHome homeRoots).2.graph.owned
      (linkedHome.key "/home/x/../a.py") := by
  obtain ⟨_, isPlace, _⟩ := linkedHome_source
  obtain ⟨normal, keyed⟩ := discovered_under_key_iff_isPlace linkedHome_formed
  obtain ⟨found, searched, member⟩ := linkedHome_found
  refine ⟨⟨found, searched, member, (normal _ _ found searched _ member).mpr isPlace⟩, ?_⟩
  obtain ⟨r, stored, here⟩ := linkedHome_stored
  obtain ⟨p, isSource, place, path, resolved, lookup⟩ := keyed {} homeRoots rfl "a" r stored
  obtain ⟨parts, rfl, _, valid, _⟩ :=
    (mem_sourceFiles linkedHome_formed (homeRoots_rooted linkedHome_rootAt) p).mp isSource
  have same : Path.ofParts parts = .ofParts ["ws", "a.py"] := by
    rw [← Path.parse_text_of_names valid, ← path, here]
    exact Path.parse_text_of_names isPlace.1
  cases same
  cases (linkedHome_formed.resolve_eq_self_iff resolved).mpr isPlace
  exact (lookup _ linkedHome_locates).mpr isPlace

/-! ### A file that is a link -/

/-- A source that is a link to a file elsewhere. -/
def linkedSource : Tree :=
  (∅ : Tree).insert ["ws"] .dir |>.insert ["ws", "a.py"] (.link "/other/a.py")
    |>.insert ["other"] .dir |>.insert ["other", "a.py"] (.file sourceA)

theorem linkedSource_contents :
    linkedSource.WellFormed ∧
    linkedSource.entry? ["ws"] = some .dir ∧
    linkedSource.entry? ["ws", "a.py"] = some (.link "/other/a.py") ∧
    linkedSource.entry? ["other", "a.py"] = some (.file sourceA) ∧
    linkedSource.namesIn ["ws"] = ["a.py"] ∧
    linkedSource.walkDepth = 35 + 1 ∧
    linkedSource.IsPlace ["ws", ignoreFile] ∧
    linkedSource.contentAt ["ws", ignoreFile] = none := by
  decide

theorem linkedSource_walk : linkedSource.walk Tree.maxLinks ["ws"] ["a.py"] = .ok ["other", "a.py"] := by
  obtain ⟨formed, _, isLink, isFile, _⟩ := linkedSource_contents
  exact (@Tree.walk_link linkedSource ["ws"] "a.py" "/other/a.py" (by decide) isLink 39 []).trans
    (@Tree.walk_of_present linkedSource formed 39 [] ["other", "a.py"] (by simp [isFile])
      (by simp [isFile]))

theorem linkedSource_resolve : linkedSource.resolve ["ws", "a.py"] = .ok ["other", "a.py"] := by
  obtain ⟨_, dir, _⟩ := linkedSource_contents
  exact (@Tree.walk_dir linkedSource [] "ws" (by decide) dir _ _).trans linkedSource_walk

theorem linkedSource_filesUnder : linkedSource.filesUnder (.ofParts ["ws"]) = [["ws", "a.py"]] := by
  obtain ⟨formed, dir, isLink, isFile, names, depth, _⟩ := linkedSource_contents
  rw [Tree.filesUnder_ofParts, formed.resolve (by simp [dir]) (by simp [dir])]
  dsimp only
  rw [dir, depth, Tree.filesBelow, names]
  simp [isLink, linkedSource_walk, isFile]

theorem linkedSource_rulesOf : linkedSource.rulesOf (.ofParts ["ws"]) = [] := by
  obtain ⟨formed, _, _, _, _, _, ⟨valid, unlinked⟩, absent⟩ := linkedSource_contents
  have read := Tree.readBytes_text formed (List.cons_ne_nil _ _) valid unlinked
  rw [absent] at read
  unfold Tree.rulesOf
  rw [@Path.joinText_text ["ws"] (by decide) ignoreFile (by decide)]
  split
  · rename_i content found
    have none := (congrArg Except.toOption found).symm.trans read
    cases none
  · rfl

theorem linkedSource_discover :
    linkedSource.discover (.parse "/ws") sourcePattern = .ok [.ofParts ["ws", "a.py"]] := by
  obtain ⟨_, _, _, _, _, _, ⟨_, unlinked⟩, _⟩ := linkedSource_contents
  have normal : linkedSource.normalize (.parse "/ws") = .ofParts ["ws"] :=
    @Tree.normalize_of_isPlace linkedSource (.ofParts ["ws"]) rfl
      ⟨by decide, unlinked.above (List.prefix_append ["ws"] [ignoreFile])⟩
  have search : Search.ofText (joinText (Path.ofParts ["ws"]).text sourcePattern) =
      ⟨.ofParts ["ws"], sourcePattern⟩ :=
    @Tree.search_eq ["ws"] (by decide) (by decide) "*.py" (by decide)
  have plain : sourceRule.keeps = false := rfl
  have behind : ["ws", "a.py"].drop (Path.ofParts ["ws"]).parts.length = ["a.py"] := rfl
  have applies : sourceRule.applies (String.intercalate "/" ["a.py"]) false = true :=
    sourceRule_applies (by decide)
  have kept : Tree.isExcluded [] (.ofParts ["ws"]) ["ws", "a.py"] = false := by decide
  unfold Tree.discover
  dsimp only
  rw [normal, search]
  dsimp only
  rw [parse_sourcePattern, linkedSource_rulesOf, linkedSource_filesUnder]
  dsimp only
  rw [List.filter_cons_of_pos (by simp only [behind, plain, applies, kept]; rfl), List.filter_nil,
    List.mergeSort_singleton]
  rfl

theorem linkedSource_scanFile :
    scanFile linkedSource "/ws/a.py" = declared "/ws/a.py" (some sourceA) := by
  obtain ⟨_, _, _, isFile, _⟩ := linkedSource_contents
  have pieces : Tree.walkPieces "/ws/a.py" = ["ws", "a.py"] := by decide
  unfold scanFile Tree.readText Tree.readBytes
  rw [if_pos (by decide), pieces, linkedSource_resolve]
  dsimp only
  rw [isFile]
  rfl

theorem linkedSource_key : linkedSource.key "/ws/a.py" = (Path.ofParts ["other", "a.py"]).text :=
  Locates.key ⟨by decide, linkedSource_resolve⟩

theorem linkedSource_lost :
    linkedSource.WellFormed ∧
    linkedSource.discover (.parse "/ws") sourcePattern = .ok [.ofParts ["ws", "a.py"]] ∧
    linkedSource.normalize (.ofParts ["ws", "a.py"]) ≠ .ofParts ["ws", "a.py"] ∧
    "a" ∈ (({} : ModelIndex).rebuild linkedSource [.parse "/ws"]).2.graph.owned "/ws/a.py" ∧
    "a" ∉ (({} : ModelIndex).rebuild linkedSource [.parse "/ws"]).2.graph.owned
      (linkedSource.key "/ws/a.py") := by
  have sources : sourceFiles linkedSource [.parse "/ws"] = [.ofParts ["ws", "a.py"]] := by
    unfold sourceFiles
    rw [List.flatMap_singleton, linkedSource_discover]
    rfl
  have graph : (({} : ModelIndex).rebuild linkedSource [.parse "/ws"]).2.graph =
      ({} : Graph).addAll (declared "/ws/a.py" (some sourceA)) := by
    rw [ModelIndex.rebuild_of_idle _ rfl, scanRoots, sources, ← linkedSource_scanFile]
    rfl
  have consistent := Graph.consistent_empty.addAll (declared "/ws/a.py" (some sourceA))
  obtain ⟨formed, _, isLink, _⟩ := linkedSource_contents
  obtain ⟨r, named⟩ := Option.isSome_iff_exists.mp (isSome_lastNamed_sourceA "/ws/a.py")
  have stored : (({} : Graph).addAll (declared "/ws/a.py" (some sourceA))).models["a"]? = some r := by
    rw [Graph.getElem?_models_addAll, named]
    rfl
  have path : r.path = "/ws/a.py" := path_of_mem_extractModels (mem_of_lastNamed named).1
  refine ⟨formed, linkedSource_discover, ?_, ?_, ?_⟩
  · intro same
    have place := (Tree.normalize_eq_self_iff formed linkedSource_discover
      (List.mem_singleton.mpr rfl)).mp same
    exact place.2 _ _ (List.prefix_refl _) isLink
  · rw [graph, consistent.mem_owned]
    exact ⟨r, stored, path⟩
  · rw [graph, consistent.mem_owned, linkedSource_key]
    rintro ⟨s, also, located⟩
    rw [stored] at also
    cases also
    rw [path] at located
    revert located
    decide

end ModelAtlas.Index
