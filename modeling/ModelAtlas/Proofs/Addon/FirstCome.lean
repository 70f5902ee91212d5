import ModelAtlas.Proofs.Addon.InnermostModule
import ModelAtlas.Proofs.Files.Listing

/-!
# First come, first kept

Of the readable manifests that name their module alike, the registry keeps the first: roots come in
their order, and the manifests below a root in the order of their paths. What is kept stays whatever is
searched later, and searching a root again finds nothing new.
-/

namespace ModelAtlas.Addon

open Files Source Std

/-! ### Manifests -/

/-- `m` is what a manifest makes of the directory it lies in. One without a dictionary has default
data. -/
structure Module.Described (t : Tree) (manifest : Path) (m : Module) : Prop where
  path : m.path = ⟨manifest.absolute, manifest.parts.dropLast⟩
  name : m.path.fileName? = some m.name
  readable : ∃ text, t.readText manifest.text = .ok text ∧
    m.manifest = (Manifest.parse (SourceFile.parse manifest.text text)).getD {}

theorem Module.read?_eq_some_iff {t : Tree} {manifest : Path} {m : Module} :
    Module.read? t manifest = some m ↔ m.Described t manifest := by
  unfold Module.read?
  dsimp only
  constructor
  · intro found
    split at found
    · rename_i name text named read
      obtain rfl := Option.some.inj found
      exact ⟨rfl, named, text, read, rfl⟩
    · cases found
  · rintro ⟨path, name, text, read, data⟩
    rw [← path, name, read]
    obtain ⟨_, _, _⟩ := m
    subst data
    rfl

/-- The module that some manifests give first under a name. -/
def firstNamed (t : Tree) (name : String) (manifests : List Path) : Option Module :=
  manifests.findSome? fun p => (Module.read? t p).filter (·.name == name)

theorem firstNamed_nil (t : Tree) (name : String) : firstNamed t name [] = none := rfl

theorem firstNamed_append (t : Tree) (name : String) (manifests others : List Path) :
    firstNamed t name (manifests ++ others) =
      (firstNamed t name manifests).or (firstNamed t name others) :=
  List.findSome?_append

theorem firstNamed_eq_some_iff {t : Tree} {name : String} {manifests : List Path} {m : Module} :
    firstNamed t name manifests = some m ↔ ∃ before p after, manifests = before ++ p :: after ∧
      m.Described t p ∧ m.name = name ∧ ∀ q ∈ before, ∀ n : Module, n.Described t q → n.name ≠ name := by
  have unnamed (q : Path) : (Module.read? t q).filter (·.name == name) = none ↔
      ∀ n : Module, n.Described t q → n.name ≠ name := by
    simp [Option.filter_eq_none_iff, Module.read?_eq_some_iff]
  unfold firstNamed
  simp only [List.findSome?_eq_some_iff, Option.filter_eq_some_iff, beq_iff_eq, unnamed,
    Module.read?_eq_some_iff, and_assoc]

namespace Registry

/-! ### What a search keeps and adds -/

theorem getElem?_enter (r : Registry) (m : Module) (k : String) :
    (r.enter m)[k]? = r[k]?.or (if m.name = k then some m else none) := by
  unfold Registry.enter
  split
  · rename_i known
    split
    · rename_i same
      rw [same, ExtTreeMap.contains_eq_isSome_getElem?] at known
      rw [Option.or_of_isSome known]
    · rw [Option.or_none]
  · rename_i new
    rw [ExtTreeMap.getElem?_insert]
    simp only [Std.compare_eq_iff_eq]
    split
    · rename_i same
      rw [Bool.not_eq_true, same] at new
      rw [ExtTreeMap.getElem?_eq_none_of_contains_eq_false new, Option.none_or]
    · rw [Option.or_none]

theorem getElem?_enterAll (t : Tree) (r : Registry) (manifests : List Path) (k : String) :
    (r.enterAll t manifests).2[k]? = r[k]?.or (firstNamed t k manifests) := by
  induction manifests generalizing r with
  | nil => rw [enterAll, firstNamed_nil, Option.or_none]
  | cons p rest ih =>
    unfold enterAll firstNamed
    rw [List.findSome?_cons]
    cases found : Module.read? t p with
    | none => exact ih r
    | some m =>
      dsimp only
      rw [ih, getElem?_enter, Option.or_assoc, Option.filter_some]
      by_cases same : m.name = k
      · rw [if_pos same, if_pos (beq_iff_eq.mpr same), Option.some_or]
      · rw [if_neg same, if_neg (by simpa using same), Option.none_or]
        rfl

theorem size_enter (r : Registry) (m : Module) :
    (r.enter m).size = if r.contains m.name then r.size else r.size + 1 := by
  unfold Registry.enter
  split
  · rfl
  · rename_i new
    rw [ExtTreeMap.size_insert, if_neg new]

/-- As many modules are counted as the registry grows by. -/
theorem count_enterAll (t : Tree) (r : Registry) (manifests : List Path) :
    (r.enterAll t manifests).1 + r.size = (r.enterAll t manifests).2.size := by
  induction manifests generalizing r with
  | nil => exact Nat.zero_add _
  | cons p rest ih =>
    unfold enterAll
    cases Module.read? t p with
    | none => exact ih r
    | some m =>
      have grown := ih (r.enter m)
      rw [size_enter] at grown
      dsimp only
      split
      · rename_i known
        rwa [if_pos known] at grown
      · rename_i new
        rw [if_neg new] at grown
        omega

/-- Keeps every entry of another registry. -/
def Keeps (after before : Registry) : Prop :=
  ∀ (k : String) (m : Module), before[k]? = some m → after[k]? = some m

theorem Keeps.count {r after : Registry} (keeps : after.Keeps r) :
    (after.keys.filter (!r.contains ·)).length + r.size = after.size := by
  have old : (after.keys.filter (r.contains ·)).Perm r.keys := by
    rw [List.perm_ext_iff_of_nodup (ExtTreeMap.nodup_keys.filter _) ExtTreeMap.nodup_keys]
    intro k
    rw [List.mem_filter, ExtTreeMap.mem_keys, ExtTreeMap.mem_keys, ← ExtTreeMap.mem_iff_contains]
    refine and_iff_right_of_imp fun member => ?_
    rw [ExtTreeMap.mem_iff_isSome_getElem?] at member ⊢
    obtain ⟨m, stored⟩ := Option.isSome_iff_exists.mp member
    exact Option.isSome_iff_exists.mpr ⟨m, keeps k m stored⟩
  have parts := List.length_eq_length_filter_add (l := after.keys) (r.contains ·)
  rw [old.length_eq, ExtTreeMap.length_keys, ExtTreeMap.length_keys] at parts
  omega

theorem keeps_enterAll (t : Tree) (r : Registry) (manifests : List Path) :
    (r.enterAll t manifests).2.Keeps r := by
  intro k m stored
  rw [getElem?_enterAll, stored, Option.some_or]

/-- A search adds as many modules as it tells, and keeps those that were there. -/
theorem discover_adds {t : Tree} {r after : Registry} {root : Path} {added : Nat}
    (searched : r.discover t root = .ok (added, after)) :
    after.Keeps r ∧ added = (after.keys.filter (!r.contains ·)).length := by
  unfold discover at searched
  split at searched
  · cases searched
  · rename_i manifests _
    obtain rfl : (r.enterAll t manifests).2 = after := congrArg Prod.snd (Except.ok.inj searched)
    obtain rfl : (r.enterAll t manifests).1 = added := congrArg Prod.fst (Except.ok.inj searched)
    have keeps := keeps_enterAll t r manifests
    refine ⟨keeps, Nat.add_right_cancel ((count_enterAll t r manifests).trans keeps.count.symm)⟩

theorem keeps_search (r : Registry) (s : Tree × Path) : (r.search s).Keeps r := by
  unfold Registry.search
  split
  · rename_i searched
    exact (discover_adds searched).1
  · exact fun _ _ stored => stored

theorem keeps_searches (r : Registry) (later : List (Tree × Path)) :
    (later.foldl search r).Keeps r := by
  induction later generalizing r with
  | nil => exact fun _ _ stored => stored
  | cons s rest ih =>
    rw [List.foldl_cons]
    exact fun k m stored => ih (r.search s) k m (r.keeps_search s k m stored)

/-! ### Roots in their order -/

/-- The manifests below a root. One that cannot be searched has none. -/
def manifestsBelow (t : Tree) (root : Path) : List Path :=
  (t.discover root manifestPattern).toOption.getD []

theorem getElem?_search (t : Tree) (r : Registry) (root : Path) (k : String) :
    (r.search (t, root))[k]? = r[k]?.or (firstNamed t k (manifestsBelow t root)) := by
  unfold Registry.search discover manifestsBelow
  cases t.discover root manifestPattern with
  | error _ =>
    show r[k]? = r[k]?.or (firstNamed t k [])
    rw [firstNamed_nil, Option.or_none]
  | ok manifests => exact getElem?_enterAll t r manifests k

theorem getElem?_searches (t : Tree) (r : Registry) (roots : List Path) (k : String) :
    ((roots.map (t, ·)).foldl search r)[k]? =
      r[k]?.or (firstNamed t k (roots.flatMap (manifestsBelow t))) := by
  induction roots generalizing r with
  | nil => rw [List.map_nil, List.foldl_nil, List.flatMap_nil, firstNamed_nil, Option.or_none]
  | cons root rest ih =>
    rw [List.map_cons, List.foldl_cons, ih, getElem?_search, List.flatMap_cons, firstNamed_append,
      Option.or_assoc]

theorem discoverAll_eq (t : Tree) (roots : List Path) :
    discoverAll t roots = afterSearches (roots.map (t, ·)) := by
  unfold discoverAll afterSearches
  rw [List.foldl_map]
  apply List.foldl_ext
  intro r root _
  unfold Registry.search
  cases r.discover t root <;> rfl

theorem getElem?_discoverAll (t : Tree) (roots : List Path) (k : String) :
    (discoverAll t roots)[k]? = firstNamed t k (roots.flatMap (manifestsBelow t)) := by
  rw [discoverAll_eq, afterSearches, getElem?_searches, ExtTreeMap.getElem?_empty, Option.none_or]

/-- A search that finds nothing but what has a name already leaves everything as it is. -/
theorem discover_eq_of_known {t : Tree} {r : Registry} {root : Path}
    (known : ∀ k : String, r[k]? = none → firstNamed t k (manifestsBelow t root) = none) :
    r.discover t root = (t.discover root manifestPattern).map fun _ => (0, r) := by
  unfold discover
  unfold manifestsBelow at known
  cases searched : t.discover root manifestPattern with
  | error _ => rfl
  | ok manifests =>
    rw [searched] at known
    have same : (r.enterAll t manifests).2 = r := by
      apply ExtTreeMap.ext_getElem?
      intro k
      rw [getElem?_enterAll]
      cases stored : r[k]? with
      | some m => rfl
      | none => exact known k stored
    have none := count_enterAll t r manifests
    rw [same, Nat.add_eq_right] at none
    exact congrArg Except.ok (Prod.ext none same)

theorem discover_again (t : Tree) {roots : List Path} {root : Path} (isRoot : root ∈ roots) :
    (discoverAll t roots).discover t root =
      (t.discover root manifestPattern).map fun _ => (0, discoverAll t roots) := by
  apply discover_eq_of_known
  intro k absent
  rw [getElem?_discoverAll] at absent
  unfold firstNamed at absent ⊢
  rw [List.findSome?_eq_none_iff] at absent ⊢
  exact fun p member => absent p (List.mem_flatMap.mpr ⟨root, isRoot, member⟩)

/-- The registry of some roots holds under each name the module of the first manifest that can be read
and whose directory is called so: roots in their order, manifests by their paths. Searches, whenever
and in whatever tree they are made, change no entry and count what they add. A root that is searched
again adds nothing. -/
theorem modules_first_come (t : Tree) (roots : List Path) :
    let r := discoverAll t roots
    (∀ (k : String) (m : Module), r[k]? = some m → m.name = k ∧ m.path.fileName? = some k) ∧
    (∀ root, (manifestsBelow t root).Pairwise fun a b => compare a.parts b.parts = .lt) ∧
    (∀ (k : String) (m : Module), r[k]? = some m ↔ ∃ before p after,
      roots.flatMap (manifestsBelow t) = before ++ p :: after ∧ m.Described t p ∧ m.name = k ∧
        ∀ q ∈ before, ∀ n : Module, n.Described t q → n.name ≠ k) ∧
    (∀ later : List (Tree × Path), (later.foldl search r).Keeps r) ∧
    (∀ (u : Tree) (earlier after : Registry) (root : Path) (added : Nat),
      earlier.discover u root = .ok (added, after) →
        after.Keeps earlier ∧ added = (after.keys.filter (!earlier.contains ·)).length) ∧
    ∀ root ∈ roots, r.discover t root = (t.discover root manifestPattern).map fun _ => (0, r) := by
  intro r
  refine ⟨?_, ?_, ?_, r.keeps_searches, fun _ _ _ _ _ => discover_adds, fun _ => discover_again t⟩
  · rw [show r = afterSearches (roots.map (t, ·)) from discoverAll_eq t roots]
    exact named_afterSearches _
  · intro root
    unfold manifestsBelow
    cases searched : t.discover root manifestPattern with
    | error _ => exact List.Pairwise.nil
    | ok manifests => exact Tree.discover_increasing searched
  · intro k m
    rw [show r[k]? = _ from getElem?_discoverAll t roots k, firstNamed_eq_some_iff]

end Registry

end ModelAtlas.Addon
