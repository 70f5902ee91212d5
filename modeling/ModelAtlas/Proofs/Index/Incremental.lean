import ModelAtlas.Proofs.Index.Batches
import ModelAtlas.Proofs.Index.Sources

/-!
# Updates agree with rebuilds

An index that has been told of every edit answers as if it had just been built.
-/

namespace ModelAtlas.Index

open Files Inheritance Model Source Std

/-- No two sources declare the same identifier. -/
def Unambiguous (t : Tree) (roots : List Path) : Prop :=
  ∀ p ∈ sourceFiles t roots, ∀ q ∈ sourceFiles t roots,
    ∀ r ∈ scanFile t p.text, ∀ s ∈ scanFile t q.text, r.identifier = s.identifier → p = q

/-- Sources are edited, and exactly these are reported, each under some spelling. -/
def Reported (roots : List Path) (t u : Tree) (paths : List String) : Prop :=
  ∃ touched, t.Edited u touched ∧ (∀ parts ∈ touched, Editable t roots parts) ∧
    (∀ path ∈ paths, ∃ parts ∈ touched, u.Spells path parts) ∧
    ∀ parts ∈ touched, ∃ path ∈ paths, u.Spells path parts

/-- An index that was built once and has been told of every edit since, and the tree as it is now. -/
inductive Follows (roots : List Path) : ModelIndex → Tree → Prop where
  | build {i : ModelIndex} {t : Tree} : i.rebuilding = false → t.WellFormed → Rooted t roots →
      Unambiguous t roots → Follows roots (i.rebuild t roots).2 t
  | update {i : ModelIndex} {t u : Tree} {paths : List String} : Follows roots i t →
      Reported roots t u paths → u.WellFormed → Unambiguous u roots →
      Follows roots (i.update u paths).2 u

/-! ### Sources and their keys -/

/-- Whether a file with this key, if there is one, is a source. -/
def IsKey (t : Tree) (roots : List Path) (key : String) : Prop :=
  ∃ parts, key = (Path.ofParts parts).text ∧ IsSource t roots parts

theorem located_scanFile (t : Tree) : Scan.Located (scanFile t) :=
  fun _ _ member => path_of_mem_scanFile member

section Sources

variable {t : Tree} {roots : List Path}

theorem IsSource.mem_sourceFiles (formed : t.WellFormed) (rooted : Rooted t roots)
    {parts : List String} (isSource : IsSource t roots parts) {r : ModelRecord}
    (declares : r ∈ Index.scanFile t (Path.ofParts parts).text) :
    Path.ofParts parts ∈ sourceFiles t roots := by
  rw [Index.mem_sourceFiles formed rooted]
  refine ⟨parts, rfl, ?_, isSource⟩
  rw [isSource.scanFile formed] at declares
  cases content : t.contentAt parts with
  | some bytes => rfl
  | none =>
    rw [content] at declares
    cases declares

theorem unambiguous_of_contents (formed : t.WellFormed) (rooted : Rooted t roots)
    (distinct : ∀ key ∈ t.keys, ∀ other ∈ t.keys,
      ∀ r ∈ declared (Path.ofParts key).text (t.contentAt key),
      ∀ s ∈ declared (Path.ofParts other).text (t.contentAt other),
        r.identifier = s.identifier → key = other) : Unambiguous t roots := by
  have stored : ∀ parts, IsSource t roots parts → (t.contentAt parts).isSome → parts ∈ t.keys := by
    intro parts isSource isFile
    obtain ⟨content, found⟩ := Tree.contentAt_isSome.mp isFile
    exact (Tree.mem_keys_iff isSource.ne_nil).mpr (by simp [found])
  intro p isP q isQ r declares s alsoDeclares same
  obtain ⟨parts, rfl, isFile, isSource⟩ := (Index.mem_sourceFiles formed rooted p).mp isP
  obtain ⟨others, rfl, alsoFile, alsoSource⟩ := (Index.mem_sourceFiles formed rooted q).mp isQ
  rw [isSource.scanFile formed] at declares
  rw [alsoSource.scanFile formed] at alsoDeclares
  rw [distinct parts (stored parts isSource isFile) others (stored others alsoSource alsoFile)
    r declares s alsoDeclares same]

theorem Unambiguous.scan (unambiguous : Unambiguous t roots) (formed : t.WellFormed)
    (rooted : Rooted t roots) : Scan.Unambiguous (scanFile t) (IsKey t roots) := by
  rintro key other id ⟨parts, rfl, isSource⟩ ⟨others, rfl, alsoSource⟩ named alsoNamed
  obtain ⟨r, last⟩ := Option.ne_none_iff_exists'.mp named
  obtain ⟨s, lastOther⟩ := Option.ne_none_iff_exists'.mp alsoNamed
  obtain ⟨member, isId⟩ := mem_of_lastNamed last
  obtain ⟨alsoMember, alsoId⟩ := mem_of_lastNamed lastOther
  have same := unambiguous _ (isSource.mem_sourceFiles formed rooted member)
    _ (alsoSource.mem_sourceFiles formed rooted alsoMember) r member s alsoMember
    (isId.trans alsoId.symm)
  rw [same]

theorem scanRoots_reflects (formed : t.WellFormed) (rooted : Rooted t roots)
    (unambiguous : Unambiguous t roots) :
    Reflects (scanRoots t roots) (IsKey t roots) (scanFile t) := by
  let keys := (sourceFiles t roots).map Path.text
  have isKey : ∀ key, key ∈ keys ∨ False → IsKey t roots key := by
    rintro key (member | absurd)
    · obtain ⟨p, isFile, rfl⟩ := List.mem_map.mp member
      obtain ⟨parts, rfl, _, isSource⟩ := (mem_sourceFiles formed rooted p).mp isFile
      exact ⟨parts, rfl, isSource⟩
    · exact absurd.elim
  have read := (reflects_empty (scanFile t)).foldl_addAll keys fun key other id first second =>
    unambiguous.scan formed rooted key other id (isKey key first) (isKey other second)
  rw [List.foldl_map] at read
  intro id r
  refine (read id r).trans ⟨?_, ?_⟩
  · rintro ⟨key, member, named⟩
    exact ⟨key, isKey key member, named⟩
  · rintro ⟨key, ⟨parts, rfl, isSource⟩, named⟩
    have isFile := isSource.mem_sourceFiles formed rooted (mem_of_lastNamed named).1
    exact ⟨_, Or.inl (List.mem_map_of_mem isFile), named⟩

end Sources

/-! ### Steps -/

theorem isKey_edited_iff {t u : Tree} {roots : List Path} {touched : List (List String)}
    (edited : t.Edited u touched) (rooted : Rooted t roots)
    (editable : ∀ parts ∈ touched, Editable t roots parts) (key : String) :
    IsKey t roots key ↔ IsKey u roots key := by
  unfold IsKey
  simp only [isSource_edited_iff edited rooted editable]

theorem Reported.single {roots : List Path} {t u : Tree} {parts : List String} {path : String}
    (edited : t.Edited u [parts]) (editable : Editable t roots parts) (spells : u.Spells path parts) :
    Reported roots t u [path] := by
  refine ⟨[parts], edited, ?_, ?_, ?_⟩
  · simpa using editable
  · simpa using spells
  · simpa using spells

theorem Reported.rooted {roots : List Path} {t u : Tree} {paths : List String}
    (reported : Reported roots t u paths) (rooted : Rooted t roots) : Rooted u roots := by
  obtain ⟨touched, edited, _⟩ := reported
  exact rooted.edited edited

/-- An update makes the index reflect the tree after the edits that are reported. -/
theorem Reported.reflects {roots : List Path} {t u : Tree} {paths : List String}
    (reported : Reported roots t u paths) (formed : t.WellFormed) (rooted : Rooted t roots)
    (formedAfter : u.WellFormed) (unambiguous : Unambiguous u roots) {i : ModelIndex}
    (consistent : i.graph.Consistent) (reflects : Reflects i.graph (IsKey t roots) (scanFile t)) :
    Reflects (i.update u paths).2.graph (IsKey u roots) (scanFile u) := by
  have rootedAfter := reported.rooted rooted
  obtain ⟨touched, edited, editable, spelled, complete⟩ := reported
  have isSource : ∀ parts ∈ touched, IsSource u roots parts := fun parts member =>
    (isSource_edited_iff edited rooted editable parts).mpr ((editable parts member).isSource formed rooted)
  have keyOf : ∀ {path parts}, parts ∈ touched → u.Spells path parts →
      u.key path = (Path.ofParts parts).text := fun member spells =>
    spells.key (isSource _ member).unlinked
  rw [ModelIndex.update_graph]
  have before := reflects.congr (isKey_edited_iff edited rooted editable)
  apply before.recommit consistent (located_scanFile t) (located_scanFile u)
    (unambiguous.scan formedAfter rootedAfter)
  · intro key member
    obtain ⟨path, isPath, rfl⟩ := List.mem_map.mp member
    obtain ⟨parts, isTouched, spells⟩ := spelled path isPath
    exact ⟨parts, keyOf isTouched spells, isSource parts isTouched⟩
  · rintro key ⟨parts, rfl, source⟩ unread
    have untouched : parts ∉ touched := by
      intro isTouched
      obtain ⟨path, isPath, spells⟩ := complete parts isTouched
      exact unread (List.mem_map.mpr ⟨path, isPath, keyOf isTouched spells⟩)
    rw [source.scanFile formedAfter, edited.kept parts untouched]
    exact ((isSource_edited_iff edited rooted editable parts).mp source).scanFile formed

/-! ### Runs -/

/-- What holds of an index and the tree that it follows. -/
structure Current (roots : List Path) (i : ModelIndex) (t : Tree) : Prop where
  formed : t.WellFormed
  rooted : Rooted t roots
  unambiguous : Unambiguous t roots
  consistent : i.graph.Consistent
  reflects : Reflects i.graph (IsKey t roots) (scanFile t)

theorem Follows.current {roots : List Path} {i : ModelIndex} {t : Tree}
    (follows : Follows roots i t) : Current roots i t := by
  induction follows with
  | build idle formed rooted unambiguous =>
    refine ⟨formed, rooted, unambiguous, ?_, ?_⟩ <;> rw [ModelIndex.rebuild_of_idle _ idle]
    · exact scanRoots_consistent _ roots
    · exact scanRoots_reflects formed rooted unambiguous
  | update _ reported formed unambiguous ih =>
    exact ⟨formed, reported.rooted ih.rooted, unambiguous,
      ModelIndex.update_consistent _ ih.consistent _,
      reported.reflects ih.formed ih.rooted formed unambiguous ih.consistent ih.reflects⟩

theorem Reflects.models_eq {g h : Graph} {counts : String → Prop} {scan : Scan}
    (reflects : Reflects g counts scan) (also : Reflects h counts scan) : g.models = h.models := by
  apply ExtTreeMap.ext_getElem?
  intro id
  apply Option.ext
  intro r
  rw [reflects id r, also id r]

theorem Follows.write {roots : List Path} {i : ModelIndex} {t : Tree} (follows : Follows roots i t)
    {parts : List String} (editable : Editable t roots parts) {content : List UInt8} {path : String}
    (spells : (t.put (.ofParts parts) (.file content)).Spells path parts)
    (unambiguous : Unambiguous (t.put (.ofParts parts) (.file content)) roots) :
    Follows roots (i.update (t.put (.ofParts parts) (.file content)) [path]).2
      (t.put (.ofParts parts) (.file content)) := by
  have now := follows.current
  have unlinked := (editable.isSource now.formed now.rooted).unlinked
  obtain ⟨edited, formed⟩ := Tree.edited_put now.formed editable.1 unlinked content
  exact .update follows (.single edited editable spells) formed unambiguous

theorem Follows.delete {roots : List Path} {i : ModelIndex} {t : Tree} (follows : Follows roots i t)
    {parts : List String} (editable : Editable t roots parts) (isFile : t.entry? parts ≠ some .dir)
    {path : String} (spells : (t.delete (.ofParts parts)).2.Spells path parts)
    (unambiguous : Unambiguous (t.delete (.ofParts parts)).2 roots) :
    Follows roots (i.update (t.delete (.ofParts parts)).2 [path]).2
      (t.delete (.ofParts parts)).2 := by
  have now := follows.current
  have unlinked := (editable.isSource now.formed now.rooted).unlinked
  obtain ⟨edited, formed⟩ := Tree.edited_delete now.formed editable.1 unlinked isFile
  exact .update follows (.single edited editable spells) formed unambiguous

def sourceA : List UInt8 := "class A(models.Model):\n\t_name = 'a'\n".toUTF8.data.toList

def sourceB : List UInt8 :=
  "class B(models.Model):\n\t_name = 'b'\n\t_inherit = ['a']\n".toUTF8.data.toList

def classA : Plain.Class where
  name := ['A']
  qualifier := "models".toList
  base := "Model".toList
  assignments := [⟨"_name".toList, .str ['a']⟩]

def classB : Plain.Class where
  name := ['B']
  qualifier := "models".toList
  base := "Model".toList
  assignments := [⟨"_name".toList, .str ['b']⟩, ⟨"_inherit".toList, .list [['a']]⟩]

theorem declared_sourceA (path : String) :
    declared path (some sourceA) = plainModels path [classA] :=
  declared_of_spelled path (by decide) (by decide)

theorem declared_sourceB (path : String) :
    declared path (some sourceB) = plainModels path [classB] :=
  declared_of_spelled path (by decide) (by decide)

theorem isSome_lastNamed_sourceA (path : String) :
    (lastNamed (declared path (some sourceA)) "a").isSome := by
  rw [declared_sourceA]
  rfl

theorem isSome_lastNamed_sourceB (path : String) :
    (lastNamed (declared path (some sourceB)) "b").isSome := by
  rw [declared_sourceB]
  rfl

theorem identifier_of_mem_sourceA {path : String} {r : ModelRecord}
    (member : r ∈ declared path (some sourceA)) : r.identifier = "a" := by
  have names : (plainModels path [classA]).map (·.identifier) = ["a"] := by rfl
  rw [declared_sourceA] at member
  exact List.mem_singleton.mp (names ▸ List.mem_map_of_mem member)

theorem identifier_of_mem_sourceB {path : String} {r : ModelRecord}
    (member : r ∈ declared path (some sourceB)) : r.identifier = "b" := by
  have names : (plainModels path [classB]).map (·.identifier) = ["b"] := by rfl
  rw [declared_sourceB] at member
  exact List.mem_singleton.mp (names ▸ List.mem_map_of_mem member)

/-- Where the two sources stand in a tree without others, no model is declared twice. -/
theorem unambiguous_of_sources {t : Tree} {roots : List Path} (formed : t.WellFormed)
    (rooted : Rooted t roots) (a b : List String)
    (contents : ∀ key ∈ t.keys, t.contentAt key = none ∨ key = a ∧ t.contentAt key = some sourceA ∨
      key = b ∧ t.contentAt key = some sourceB) : Unambiguous t roots := by
  refine unambiguous_of_contents formed rooted ?_
  intro key stored other alsoStored r member s alsoMember same
  have named : ∀ k ∈ t.keys, ∀ r ∈ declared (Path.ofParts k).text (t.contentAt k),
      k = a ∧ r.identifier = "a" ∨ k = b ∧ r.identifier = "b" := by
    intro k isKey r member
    rcases contents k isKey with none | ⟨here, content⟩ | ⟨here, content⟩
    · rw [none] at member
      cases member
    · rw [content] at member
      exact .inl ⟨here, identifier_of_mem_sourceA member⟩
    · rw [content] at member
      exact .inr ⟨here, identifier_of_mem_sourceB member⟩
  rcases named key stored r member with ⟨rfl, first⟩ | ⟨rfl, first⟩ <;>
    rcases named other alsoStored s alsoMember with ⟨rfl, second⟩ | ⟨rfl, second⟩
  · rfl
  · simp [first, second] at same
  · simp [first, second] at same
  · rfl

/-- A source in a directory that a link leads to. -/
def linkedHome : Tree :=
  (∅ : Tree).insert ["home"] (.link "ws") |>.insert ["ws"] .dir
    |>.insert ["ws", "a.py"] (.file sourceA)

def homeRoots : List Path := [.parse "/home"]

/-- A second source is written. -/
def writtenHome : Tree := linkedHome.put (.ofParts ["ws", "b.py"]) (.file sourceB)

/-- The first one is deleted. -/
def deletedHome : Tree := (writtenHome.delete (.ofParts ["ws", "a.py"])).2

theorem linkedHome_contents :
    linkedHome.WellFormed ∧ linkedHome.entry? ["home"] = some (.link "ws") ∧
      linkedHome.entry? ["ws"] = some .dir ∧ linkedHome.Clear ["ws"] := by
  decide

theorem linkedHome_formed : linkedHome.WellFormed := linkedHome_contents.1

theorem leadsTo_home {t : Tree} (formed : t.WellFormed)
    (stored : t.entry? ["home"] = some (.link "ws")) (dir : t.entry? ["ws"] = some .dir)
    {rest : List String} (valid : ∀ n ∈ rest, IsName n) : t.LeadsTo ("home" :: rest) ("ws" :: rest) :=
  Tree.leadsTo_link formed (by decide) stored (by decide) dir valid

theorem linkedHome_rootAt : linkedHome.RootAt (.parse "/home") ["ws"] := by
  obtain ⟨formed, stored, dir, clear⟩ := linkedHome_contents
  exact ⟨by decide, leadsTo_home formed stored dir (List.forall_mem_nil _), by decide, clear⟩

theorem homeRoots_rooted {t : Tree} (at_ : t.RootAt (.parse "/home") ["ws"]) : Rooted t homeRoots := by
  intro root isRoot
  rw [List.mem_singleton.mp isRoot]
  exact ⟨["ws"], at_⟩

theorem linkedHome_follows :
    Follows homeRoots (({} : ModelIndex).rebuild linkedHome homeRoots).2 linkedHome := by
  have rooted := homeRoots_rooted linkedHome_rootAt
  exact .build rfl linkedHome_formed rooted
    (unambiguous_of_sources linkedHome_formed rooted ["ws", "a.py"] [] (by decide))

theorem writtenHome_edited : linkedHome.Edited writtenHome [["ws", "b.py"]] ∧ writtenHome.WellFormed :=
  Tree.edited_put linkedHome_formed (by decide) (linkedHome_rootAt.clear.unlinked ["b.py"]) _

theorem writtenHome_rootAt : writtenHome.RootAt (.parse "/home") ["ws"] :=
  linkedHome_rootAt.extend writtenHome_edited.1.frame

theorem writtenHome_follows :
    Follows homeRoots ((({} : ModelIndex).rebuild linkedHome homeRoots).2.update writtenHome
      ["/home/./x/../b.py"]).2 writtenHome := by
  have editable : Editable linkedHome homeRoots ["ws", "b.py"] :=
    editable_of_rootAt linkedHome_formed (List.mem_singleton.mpr rfl) linkedHome_rootAt
      (List.cons_ne_nil _ _) (by decide) (by decide) (by decide)
  have detour : Detour ["home", ".", "x", "..", "b.py"] ["home", "b.py"] :=
    @Detour.stay ["home"] _ _ (@Detour.back ["home"] _ _ _ (by decide) (.direct _))
  have leads : writtenHome.LeadsTo ["home", "b.py"] ["ws", "b.py"] :=
    leadsTo_home writtenHome_edited.2 (by decide) (by decide) (by decide)
  have spells : writtenHome.Spells "/home/./x/../b.py" ["ws", "b.py"] :=
    ⟨_, _, by decide, detour, by decide, leads⟩
  exact linkedHome_follows.write editable spells
    (unambiguous_of_sources writtenHome_edited.2 (homeRoots_rooted writtenHome_rootAt) ["ws", "a.py"]
      ["ws", "b.py"] (by decide))

/-- As written, the roots are no globs, and no link lies below one. -/
def Inconspicuous (t : Tree) (roots : List Path) : Prop :=
  ∀ root ∈ roots, (∀ n ∈ root.parts, isGlobPart n = false) ∧
    ∀ key ∈ t.keys, (t.entry? key).any Entry.isLink → root.parts <+: key → key = root.parts

instance (t : Tree) (roots : List Path) : Decidable (Inconspicuous t roots) := by
  unfold Inconspicuous
  infer_instance

/-- Nothing is wrong with a step but where the roots lead to, and still the index that is updated
gives other answers than one that is built. -/
structure Disagrees (roots : List Path) (t u : Tree) (paths : List String) : Prop where
  formed : t.WellFormed
  inconspicuous : Inconspicuous t roots
  reported : Reported roots t u paths
  unambiguous : Unambiguous t roots ∧ Unambiguous u roots
  differ : ¬ ((({} : ModelIndex).rebuild t roots).2.update u paths).2.graph.SameAnswers
    (({} : ModelIndex).rebuild u roots).2.graph

theorem unambiguous_of_no_sources {t : Tree} {roots : List Path} (none : sourceFiles t roots = []) :
    Unambiguous t roots := by
  intro p member
  rw [none] at member
  cases member

/-- A link that leads nowhere as long as there is no directory `/new`. -/
def dangling : Tree :=
  (∅ : Tree).insert ["link"] (.link "/new/../old") |>.insert ["old"] .dir
    |>.insert ["old", "b.py"] (.file sourceB)

def danglingRoots : List Path := [.parse "/link", .parse "/new"]

/-- With that directory. -/
def mended : Tree := dangling.put (.ofParts ["new", "a.py"]) (.file sourceA)

theorem resolve_link {t : Tree} (stored : t.entry? ["link"] = some (.link "/new/../old")) :
    t.resolve ["link"] = t.walk 39 [] ["new", "..", "old"] :=
  @Tree.walk_link t [] "link" _ (by decide) stored 39 []

theorem dangling_contents :
    dangling.WellFormed ∧ dangling.entry? ["link"] = some (.link "/new/../old") ∧
      dangling.entry? ["new"] = none ∧ dangling.Clear ["new"] ∧
      Inconspicuous dangling danglingRoots ∧
      Tree.isExcluded (dangling.rulesAt ["new"]) (.ofParts ["new"]) ["new", "a.py"] = false := by
  decide

theorem dangling_resolve : dangling.resolve ["link"] = .error .notFound := by
  obtain ⟨_, stored, missing, _⟩ := dangling_contents
  rw [resolve_link stored, Tree.walk_missing (by decide) missing]

theorem dangling_rootAt : dangling.RootAt (.parse "/new") ["new"] := by
  obtain ⟨_, _, _, clear, _⟩ := dangling_contents
  exact ⟨by decide, dangling.leadsTo_self (by decide), by decide, clear⟩

theorem dangling_sources : sourceFiles dangling danglingRoots = [] := by
  have linkNormal : dangling.normalize (.parse "/link") = .ofParts ["link"] := by
    have parts : (Path.parse "/link").clean.parts.reverse = ["link"] := by decide
    unfold Tree.normalize
    dsimp only
    rw [if_pos (by decide), parts, Tree.follow_of_error dangling_resolve (by decide),
      Tree.follow_of_ok dangling.resolve_nil]
    rfl
  have newResolve : dangling.resolve ["new"] = .error .notFound :=
    Tree.walk_missing (by decide) dangling_contents.2.2.1 _ []
  have newNormal := dangling_rootAt.normalize
  unfold sourceFiles danglingRoots
  rw [List.flatMap_cons, List.flatMap_cons,
    discover_sources_eq_nil linkNormal (by decide) (by decide)
      (Tree.filesUnder_of_error dangling_resolve),
    discover_sources_eq_nil newNormal (by decide) (by decide) (Tree.filesUnder_of_error newResolve)]
  rfl

theorem mended_contents :
    mended.WellFormed ∧ mended.entry? ["link"] = some (.link "/new/../old") ∧
      mended.entry? ["new"] = some .dir ∧ mended.entry? ["old"] = some .dir ∧
      mended.Clear ["new"] ∧ mended.Clear ["old"] ∧
      Tree.isExcluded (mended.rulesAt ["old"]) (.ofParts ["old"]) ["old", "b.py"] = false := by
  decide

theorem mended_formed : mended.WellFormed := mended_contents.1

theorem mended_rootAt : mended.RootAt (.parse "/link") ["old"] := by
  obtain ⟨formed, stored, new, dir, _, clear, _⟩ := mended_contents
  refine ⟨by decide, ?_, by decide, clear⟩
  refine ⟨["link"], [], ["old"], by decide, by simp, ?_, dir, rfl⟩
  rw [resolve_link stored, Tree.walk_dir (by decide) new, Tree.walk_back]
  exact @Tree.walk_of_present mended formed 39 [] ["old"] (by simp [dir]) (by simp [dir])

theorem mended_rooted : Rooted mended danglingRoots := by
  intro root isRoot
  rcases List.mem_cons.mp isRoot with rfl | isRoot
  · exact ⟨["old"], mended_rootAt⟩
  · rw [List.mem_singleton.mp isRoot]
    obtain ⟨_, _, _, _, clear, _⟩ := mended_contents
    exact ⟨["new"], by decide, mended.leadsTo_self (by decide), by decide, clear⟩

theorem mended_unambiguous : Unambiguous mended danglingRoots :=
  unambiguous_of_sources mended_formed mended_rooted ["new", "a.py"] ["old", "b.py"]
    (by decide)

/-- An update with one file of an index that was built from nothing. -/
theorem get?_update_single {t u : Tree} {roots : List Path} (none : sourceFiles t roots = [])
    {path key : String} (isKey : u.key path = key) (id : String) :
    ((({} : ModelIndex).rebuild t roots).2.update u [path]).2.graph.get? id =
      lastNamed (scanFile u key) id := by
  have empty : (({} : ModelIndex).rebuild t roots).2.graph = {} := by
    rw [ModelIndex.rebuild_of_idle t rfl, scanRoots_of_no_sources none]
  rw [ModelIndex.update_graph, empty, List.map_singleton, isKey]
  exact get?_commit_empty key (scanFile u key) id

theorem mended_update :
    ((({} : ModelIndex).rebuild dangling danglingRoots).2.update mended ["/new/a.py"]).2.graph.get? "b" =
      none := by
  have valid : ∀ n ∈ ["new", "a.py"], IsName n := by decide
  obtain ⟨_, _, _, _, clear, _⟩ := mended_contents
  have key : mended.key "/new/a.py" = (Path.ofParts ["new", "a.py"]).text :=
    (mended.spells_text valid).key (clear.unlinked ["a.py"])
  rw [get?_update_single dangling_sources key,
    scanFile_text mended_formed (List.cons_ne_nil _ _) valid (clear.unlinked ["a.py"]),
    show mended.contentAt ["new", "a.py"] = some sourceA by decide, declared_sourceA,
    lastNamed_eq_none_iff]
  decide

theorem mended_rebuild :
    (({} : ModelIndex).rebuild mended danglingRoots).2.graph.get? "b" ≠ none := by
  obtain ⟨_, _, _, _, _, _, included⟩ := mended_contents
  have editable : Editable mended danglingRoots ["old", "b.py"] :=
    editable_of_rootAt mended_formed (by simp [danglingRoots]) mended_rootAt (List.cons_ne_nil _ _)
      (by decide) (by decide) included
  have isSource := editable.isSource mended_formed mended_rooted
  have declares : (lastNamed (declared (Path.ofParts ["old", "b.py"]).text
      (mended.contentAt ["old", "b.py"])) "b").isSome := by
    rw [show mended.contentAt ["old", "b.py"] = some sourceB by decide]
    exact isSome_lastNamed_sourceB _
  obtain ⟨r, named⟩ := Option.isSome_iff_exists.mp declares
  have stored := (scanRoots_reflects mended_formed mended_rooted mended_unambiguous "b" r).mpr
    ⟨_, ⟨_, rfl, isSource⟩, (isSource.scanFile mended_formed).symm ▸ named⟩
  rw [ModelIndex.rebuild_of_idle _ rfl, Graph.get?, stored]
  simp

theorem dangling_disagrees : Disagrees danglingRoots dangling mended ["/new/a.py"] := by
  obtain ⟨formed, _, _, _, inconspicuous, included⟩ := dangling_contents
  have valid : ∀ n ∈ ["new", "a.py"], IsName n := by decide
  have edited := (Tree.edited_put formed valid (dangling_rootAt.clear.unlinked ["a.py"]) sourceA).1
  have editable : Editable dangling danglingRoots ["new", "a.py"] :=
    editable_of_rootAt formed (by simp [danglingRoots]) dangling_rootAt (List.cons_ne_nil _ _) valid
      (by decide) included
  have spells : mended.Spells "/new/a.py" ["new", "a.py"] := mended.spells_text valid
  refine ⟨formed, inconspicuous, .single edited editable spells,
    ⟨unambiguous_of_no_sources dangling_sources, mended_unambiguous⟩, ?_⟩
  intro same
  exact mended_rebuild ((same.get? "b").symm.trans mended_update)

/-- A link to a directory with a brace in its name. -/
def braced : Tree := (∅ : Tree).insert ["ws"] (.link "/d\x7b") |>.insert ["d\x7b"] .dir

def bracedRoots : List Path := [.parse "/ws"]

/-- With a source in that directory. -/
def filled : Tree := braced.put (.ofParts ["d\x7b", "a.py"]) (.file sourceA)

theorem parse_braced : Rule.parse "d\x7b/**/*.py" = .error .unclosedBrace := by
  have chars : "d\x7b/**/*.py".toList =
      ['d', '\x7b', '/', '*', '*', '/', '*', '.', 'p', 'y'] := by decide
  have read : readGlob none [] [] ['d', '\x7b', '/', '*', '*', '/', '*', '.', 'p', 'y'] =
      .error .unclosedBrace := by simp [readGlob]
  have glob : Glob.parse "d\x7b/**/*.py" = .error .unclosedBrace := by
    unfold Glob.parse
    rw [chars, read]
    rfl
  rw [Rule.parse_of_plain (by decide) (by decide) (by decide) (by decide) (by decide) (by decide), glob]
  rfl

theorem leadsTo_braced {t : Tree} (formed : t.WellFormed)
    (stored : t.entry? ["ws"] = some (.link "/d\x7b")) (dir : t.entry? ["d\x7b"] = some .dir)
    {rest : List String} (valid : ∀ n ∈ rest, IsName n) :
    t.LeadsTo ("ws" :: rest) ("d\x7b" :: rest) :=
  Tree.leadsTo_link formed (by decide) stored (by decide) dir valid

theorem braced_sources {t : Tree} (normal : t.normalize (.parse "/ws") = .ofParts ["d\x7b"]) :
    sourceFiles t bracedRoots = [] := by
  have search : Search.ofText (joinText (Path.ofParts ["d\x7b"]).text sourcePattern) =
      ⟨.ofParts [], "d\x7b/**/*.py"⟩ := by decide
  have failed : t.discover (.parse "/ws") sourcePattern = .error ⟨.ofParts ["d\x7b"]⟩ := by
    unfold Tree.discover
    dsimp only
    rw [normal, search]
    dsimp only
    rw [parse_braced]
  unfold sourceFiles bracedRoots
  rw [List.flatMap_cons, failed]
  rfl

theorem normalize_braced {t : Tree} (formed : t.WellFormed) (clear : t.Clear ["d\x7b"])
    (stored : t.entry? ["ws"] = some (.link "/d\x7b")) (dir : t.entry? ["d\x7b"] = some .dir) :
    t.normalize (.parse "/ws") = .ofParts ["d\x7b"] := by
  have leads : t.LeadsTo ["ws"] ["d\x7b"] := leadsTo_braced formed stored dir (by simp)
  exact Tree.LeadsTo.normalize (by decide) leads clear.unlinked_self

theorem braced_disagrees : Disagrees bracedRoots braced filled ["/ws/a.py"] := by
  have formed : braced.WellFormed := by decide
  have clear : braced.Clear ["d\x7b"] := by decide
  have valid : ∀ n ∈ ["d\x7b", "a.py"], IsName n := by decide
  have normal := normalize_braced formed clear (by decide) (by decide)
  obtain ⟨edited, formedAfter⟩ : braced.Edited filled [["d\x7b", "a.py"]] ∧ filled.WellFormed :=
    Tree.edited_put formed valid (clear.unlinked ["a.py"]) _
  have clearAfter : filled.Clear ["d\x7b"] := by decide
  have unlinked : filled.Unlinked ["d\x7b", "a.py"] := clearAfter.unlinked ["a.py"]
  have stored : filled.entry? ["ws"] = some (.link "/d\x7b") := by decide
  have dir : filled.entry? ["d\x7b"] = some .dir := by decide
  have normalAfter := normalize_braced formedAfter clearAfter stored dir
  have spells : filled.Spells "/ws/a.py" ["d\x7b", "a.py"] :=
    ⟨["ws", "a.py"], _, by decide, .direct _, by decide,
      leadsTo_braced formedAfter stored dir (by decide)⟩
  have editable : Editable braced bracedRoots ["d\x7b", "a.py"] := by
    refine ⟨valid, by decide, .parse "/ws", List.mem_singleton.mpr rfl, ["a.py"], by simp, ?_⟩
    rw [normal, Tree.rulesOf_eq formed (by decide) clear]
    exact ⟨rfl, by decide⟩
  refine ⟨formed, by decide, .single edited editable spells,
    ⟨unambiguous_of_no_sources (braced_sources normal),
      unambiguous_of_no_sources (braced_sources normalAfter)⟩, ?_⟩
  intro same
  have answer := same.get? "a"
  rw [get?_update_single (braced_sources normal) (spells.key unlinked),
    ModelIndex.rebuild_of_idle _ rfl, scanRoots_of_no_sources (braced_sources normalAfter),
    scanFile_text formedAfter (List.cons_ne_nil _ _) valid unlinked] at answer
  have declares : (lastNamed (declared (Path.ofParts ["d\x7b", "a.py"]).text
      (filled.contentAt ["d\x7b", "a.py"])) "a").isSome := by
    rw [show filled.contentAt ["d\x7b", "a.py"] = some sourceA by decide]
    exact isSome_lastNamed_sourceA _
  rw [answer] at declares
  cases declares

end ModelAtlas.Index
