import ModelAtlas.Files.Normalize
import ModelAtlas.Proofs.Files.Spelling

/-!
# Walking through a tree

A walk that comes to a directory goes on from there, and takes the same way in every tree that has
the same links and at least the same directories. Where there are no links it goes straight on.
-/

namespace ModelAtlas.Files

open Std

def Entry.isLink : Entry → Bool
  | .link _ => true
  | _ => false

namespace Tree

theorem entry?_of_ne_nil (t : Tree) {parts : List String} (proper : parts ≠ []) :
    t.entry? parts = t[parts]? := by
  unfold entry?
  rw [if_neg (by simpa using proper)]

theorem mem_keys_iff {t : Tree} {parts : List String} (proper : parts ≠ []) :
    parts ∈ t.keys ↔ t.entry? parts ≠ none := by
  rw [ExtTreeMap.mem_keys, ExtTreeMap.mem_iff_isSome_getElem?, ← entry?_of_ne_nil t proper]
  exact Option.isSome_iff_ne_none

/-- Every entry has a name and stands in a directory. -/
structure WellFormed (t : Tree) : Prop where
  names : ∀ parts, t.entry? parts ≠ none → ∀ n ∈ parts, IsName n
  inside : ∀ parts name, t.entry? (parts ++ [name]) ≠ none → t.entry? parts = some .dir

theorem wellFormed_iff {t : Tree} :
    (∀ key ∈ t.keys, (∀ n ∈ key, IsName n) ∧ t.entry? key.dropLast = some .dir) ↔ t.WellFormed := by
  constructor
  · intro formed
    refine ⟨?_, ?_⟩
    · intro parts present
      by_cases top : parts = []
      · simp [top]
      · exact (formed parts ((mem_keys_iff top).mpr present)).1
    · intro parts name present
      have dir := (formed _ ((mem_keys_iff (by simp)).mpr present)).2
      rwa [List.dropLast_concat] at dir
  · intro formed key stored
    by_cases top : key = []
    · subst top
      exact ⟨by simp, rfl⟩
    · have present := (mem_keys_iff top).mp stored
      refine ⟨formed.names key present, formed.inside _ (key.getLast top) ?_⟩
      rwa [List.dropLast_concat_getLast top]

instance (t : Tree) : Decidable t.WellFormed := decidable_of_iff _ wellFormed_iff

theorem WellFormed.above {t : Tree} (formed : t.WellFormed) {parts rest : List String}
    (below : rest ≠ []) (present : t.entry? (parts ++ rest) ≠ none) :
    t.entry? parts = some .dir := by
  induction rest generalizing parts with
  | nil => exact absurd rfl below
  | cons name others ih =>
    rw [List.append_cons] at present
    apply formed.inside parts name
    cases others with
    | nil => simpa using present
    | cons second more =>
      rw [ih (by simp) present]
      simp

/-! ### Going on -/

theorem walk_missing {t : Tree} {here : List String} {name : String} (isName : IsName name)
    (missing : t.entry? (here ++ [name]) = none) (links : Nat) (rest : List String) :
    t.walk links here (name :: rest) = .error .notFound := by
  rw [walk, if_neg (by simpa using isName.notHere), if_neg (by simpa using isName.notAbove), missing]

theorem walk_dir {t : Tree} {here : List String} {name : String} (isName : IsName name)
    (found : t.entry? (here ++ [name]) = some .dir) (links : Nat) (rest : List String) :
    t.walk links here (name :: rest) = t.walk links (here ++ [name]) rest := by
  rw [walk, if_neg (by simpa using isName.notHere), if_neg (by simpa using isName.notAbove), found]

theorem walk_back (t : Tree) (links : Nat) (here rest : List String) :
    t.walk links here (".." :: rest) = t.walk links here.dropLast rest := by
  rw [walk, if_neg (by decide), if_pos (by decide)]

theorem resolve_nil (t : Tree) : t.resolve [] = .ok [] := by rw [resolve, walk]

theorem walk_link {t : Tree} {here : List String} {name target : String} (isName : IsName name)
    (found : t.entry? (here ++ [name]) = some (.link target)) (links : Nat) (rest : List String) :
    t.walk (links + 1) here (name :: rest) =
      t.walk links (if target.toList.head? == some '/' then [] else here)
        (walkPieces target ++ rest) := by
  rw [walk, if_neg (by simpa using isName.notHere), if_neg (by simpa using isName.notAbove), found]

theorem walk_append {t : Tree} {links : Nat} {here there : List String} {before : List String}
    (walked : t.walk links here before = .ok there) (dir : t.entry? there = some .dir)
    (after : List String) :
    ∃ left ≤ links, t.walk links here (before ++ after) = t.walk left there after := by
  fun_induction walk t links here before with
  | case1 links here =>
    cases walked
    exact ⟨links, Nat.le_refl _, rfl⟩
  | case2 links here piece rest isHere ih =>
    rw [List.cons_append, walk, if_pos isHere]
    exact ih walked
  | case3 links here piece rest notHere isAbove ih =>
    rw [List.cons_append, walk, if_neg notHere, if_pos isAbove]
    exact ih walked
  | case4 => cases walked
  | case5 links here piece rest notHere notAbove found ih =>
    rw [List.cons_append, walk, if_neg notHere, if_neg notAbove, found]
    exact ih walked
  | case6 links here piece rest notHere notAbove content found last =>
    cases walked
    rw [found] at dir
    cases dir
  | case7 => cases walked
  | case8 => cases walked
  | case9 here piece rest notHere notAbove target found links start ih =>
    obtain ⟨left, fewer, same⟩ := ih walked
    refine ⟨left, Nat.le_succ_of_le fewer, ?_⟩
    rw [List.cons_append, walk, if_neg notHere, if_neg notAbove, found, ← same, List.append_assoc]
    rfl

/-- Has the same links as another tree and at least the same directories. -/
structure Extends (u t : Tree) : Prop where
  dirs : ∀ parts, t.entry? parts = some .dir → u.entry? parts = some .dir
  links : ∀ parts target, t.entry? parts = some (.link target) ↔ u.entry? parts = some (.link target)

theorem Extends.walk {t u : Tree} (frame : u.Extends t) {links : Nat} {here there : List String}
    {pieces : List String} (walked : t.walk links here pieces = .ok there)
    (dir : t.entry? there = some .dir) : u.walk links here pieces = .ok there := by
  fun_induction Tree.walk t links here pieces with
  | case1 links here =>
    rw [Tree.walk]
    exact walked
  | case2 links here piece rest isHere ih =>
    rw [Tree.walk, if_pos isHere]
    exact ih walked
  | case3 links here piece rest notHere isAbove ih =>
    rw [Tree.walk, if_neg notHere, if_pos isAbove]
    exact ih walked
  | case4 => cases walked
  | case5 links here piece rest notHere notAbove found ih =>
    rw [Tree.walk, if_neg notHere, if_neg notAbove, frame.dirs _ found]
    exact ih walked
  | case6 links here piece rest notHere notAbove content found last =>
    cases walked
    rw [found] at dir
    cases dir
  | case7 => cases walked
  | case8 => cases walked
  | case9 here piece rest notHere notAbove target found links start ih =>
    rw [Tree.walk, if_neg notHere, if_neg notAbove, (frame.links _ _).mp found]
    exact ih walked

/-! ### Going straight on -/

/-- There is no link on the way to some parts, nor under them. -/
def Unlinked (t : Tree) (parts : List String) : Prop :=
  ∀ above target, above <+: parts → t.entry? above ≠ some (.link target)

theorem unlinked_iff {t : Tree} {parts : List String} :
    (∀ key ∈ t.keys, key <+: parts → (t.entry? key).any Entry.isLink = false) ↔ t.Unlinked parts := by
  constructor
  · intro unlinked above target start found
    have proper : above ≠ [] := by
      rintro rfl
      cases found
    have none := unlinked above ((mem_keys_iff proper).mpr (by simp [found])) start
    simp [found, Entry.isLink] at none
  · intro unlinked key _ start
    cases found : t.entry? key with
    | none => rfl
    | some e =>
      cases e with
      | link target => exact absurd found (unlinked key target start)
      | file content => rfl
      | dir => rfl

instance (t : Tree) (parts : List String) : Decidable (t.Unlinked parts) :=
  decidable_of_iff _ unlinked_iff

theorem walk_straight {t : Tree} {links : Nat} {here there names : List String}
    (valid : ∀ n ∈ names, IsName n) (unlinked : t.Unlinked (here ++ names))
    (walked : t.walk links here names = .ok there) : there = here ++ names := by
  induction names generalizing here with
  | nil =>
    rw [walk] at walked
    cases walked
    simp
  | cons name rest ih =>
    obtain ⟨isName, others⟩ := List.forall_mem_cons.mp valid
    rw [List.append_cons] at unlinked ⊢
    rw [walk, if_neg (by simpa using isName.notHere), if_neg (by simpa using isName.notAbove)]
      at walked
    split at walked
    · cases walked
    · exact ih others unlinked walked
    · split at walked
      · rename_i last
        rw [List.isEmpty_iff.mp last]
        simpa using (Except.ok.inj walked).symm
      · cases walked
    · rename_i target found
      exact absurd found (unlinked _ target (List.prefix_append _ _))

theorem walk_of_present {t : Tree} (formed : t.WellFormed) (links : Nat)
    {here names : List String} (present : t.entry? (here ++ names) ≠ none)
    (noLink : ∀ target, t.entry? (here ++ names) ≠ some (.link target)) :
    t.walk links here names = .ok (here ++ names) := by
  induction names generalizing here with
  | nil =>
    rw [walk, List.append_nil]
  | cons name rest ih =>
    have isName : IsName name := formed.names _ present name (by simp)
    rw [List.append_cons] at present noLink ⊢
    rw [walk, if_neg (by simpa using isName.notHere), if_neg (by simpa using isName.notAbove)]
    cases rest with
    | nil =>
      rw [List.append_nil] at present noLink ⊢
      cases found : t.entry? (here ++ [name]) with
      | none => exact absurd found present
      | some e =>
        cases e with
        | file content => rfl
        | dir =>
          dsimp only
          rw [walk]
        | link target => exact absurd found (noLink target)
    | cons second more =>
      rw [formed.above (List.cons_ne_nil second more) present]
      exact ih present noLink

theorem WellFormed.resolve {t : Tree} (formed : t.WellFormed) {parts : List String}
    (present : t.entry? parts ≠ none) (noLink : ∀ target, t.entry? parts ≠ some (.link target)) :
    t.resolve parts = .ok parts := by
  rw [← List.nil_append parts] at present noLink
  exact walk_of_present formed maxLinks present noLink

theorem Unlinked.above {t : Tree} {parts above : List String} (unlinked : t.Unlinked parts)
    (part : above <+: parts) : t.Unlinked above :=
  fun higher target start => unlinked higher target (start.trans part)

theorem Unlinked.frame {t u : Tree} {parts : List String} (unlinked : t.Unlinked parts)
    (frame : u.Extends t) : u.Unlinked parts :=
  fun above target start found => unlinked above target start ((frame.links above target).mpr found)

/-! ### Normal paths -/

/-- Some parts lead to a place: through links as far as a directory, and straight on from there. -/
def LeadsTo (t : Tree) (parts place : List String) : Prop :=
  ∃ found rest here, parts = found ++ rest ∧ (∀ n ∈ rest, IsName n) ∧
    t.resolve found = .ok here ∧ t.entry? here = some .dir ∧ place = here ++ rest

theorem leadsTo_self (t : Tree) {parts : List String} (valid : ∀ n ∈ parts, IsName n) :
    t.LeadsTo parts parts :=
  ⟨[], parts, [], rfl, valid, t.resolve_nil, rfl, rfl⟩

theorem leadsTo_link {t : Tree} (formed : t.WellFormed) {name target : String}
    {there rest : List String} (isName : IsName name)
    (stored : t.entry? [name] = some (.link target)) (pieces : walkPieces target = there)
    (dir : t.entry? there = some .dir) (valid : ∀ n ∈ rest, IsName n) :
    t.LeadsTo (name :: rest) (there ++ rest) := by
  have followed := @walk_link t [] name target isName stored 39 []
  rw [ite_self, List.append_nil, pieces] at followed
  have arrived : t.walk 39 [] there = .ok there :=
    @walk_of_present t formed 39 [] there (by simp [dir]) (by simp [dir])
  exact ⟨[name], rest, there, rfl, valid, followed.trans arrived, dir, rfl⟩

theorem follow_of_ok {t : Tree} {existing place : List String}
    (resolved : t.resolve existing.reverse = .ok place) (missing : List String) :
    t.follow existing missing = some (place ++ missing) := by
  rw [follow.eq_def]
  dsimp only
  rw [resolved]

theorem follow_of_error {t : Tree} {name : String} {above : List String} {e : AccessError}
    (failed : t.resolve (name :: above).reverse = .error e) (isName : IsName name)
    (missing : List String) : t.follow (name :: above) missing = t.follow above (name :: missing) := by
  rw [follow.eq_def]
  dsimp only
  rw [failed]
  dsimp only
  rw [if_neg (by simpa using isName.notAbove)]

theorem normalize_of_follow {t : Tree} {p : Path} {place : List String} (absolute : p.absolute = true)
    (followed : t.follow p.clean.parts.reverse [] = some place) : t.normalize p = .ofParts place := by
  have isAbsolute : p.clean.absolute = true := absolute
  unfold normalize
  dsimp only
  rw [if_pos isAbsolute, followed]

theorem follow_reverse_append {t : Tree} {found here : List String}
    (resolved : t.resolve found = .ok here) (dir : t.entry? here = some .dir) (back : List String)
    (missing : List String) (valid : ∀ n ∈ back, IsName n)
    (unlinked : t.Unlinked (here ++ back.reverse)) :
    t.follow (back ++ found.reverse) missing = some (here ++ back.reverse ++ missing) := by
  induction back generalizing missing with
  | nil =>
    rw [List.nil_append, follow_of_ok (by rw [List.reverse_reverse]; exact resolved)]
    simp
  | cons name above ih =>
    obtain ⟨isName, others⟩ := List.forall_mem_cons.mp valid
    have way : (name :: (above ++ found.reverse)).reverse = found ++ (name :: above).reverse := by simp
    rw [List.cons_append]
    obtain ⟨left, _, onward⟩ := walk_append resolved dir (name :: above).reverse
    cases walked : t.resolve (name :: (above ++ found.reverse)).reverse with
    | ok place =>
      rw [follow_of_ok walked]
      rw [way] at walked
      have names : ∀ n ∈ (name :: above).reverse, IsName n :=
        fun n member => valid n (List.mem_reverse.mp member)
      rw [walk_straight names unlinked (onward.symm.trans walked)]
    | error e =>
      have shorter : t.Unlinked (here ++ above.reverse) := by
        apply unlinked.above
        rw [List.reverse_cons, ← List.append_assoc]
        exact List.prefix_append _ _
      rw [follow_of_error walked isName, ih (name :: missing) others shorter]
      simp

theorem LeadsTo.follow {t : Tree} {parts place : List String} (leads : t.LeadsTo parts place)
    (unlinked : t.Unlinked place) : t.follow parts.reverse [] = some place := by
  obtain ⟨found, rest, here, rfl, valid, resolved, dir, rfl⟩ := leads
  have followed := follow_reverse_append resolved dir rest.reverse [] (by simpa using valid)
    (by simpa using unlinked)
  simpa using followed

theorem LeadsTo.normalize {t : Tree} {p : Path} {place : List String} (absolute : p.absolute = true)
    (leads : t.LeadsTo p.clean.parts place) (unlinked : t.Unlinked place) :
    t.normalize p = .ofParts place :=
  normalize_of_follow absolute (leads.follow unlinked)

theorem LeadsTo.extend {t u : Tree} (frame : u.Extends t) {parts place : List String}
    (leads : t.LeadsTo parts place) : u.LeadsTo parts place := by
  obtain ⟨found, rest, here, split, valid, resolved, dir, joined⟩ := leads
  exact ⟨found, rest, here, split, valid, frame.walk resolved dir, frame.dirs here dir, joined⟩

/-- A text spells a place: an absolute path, detours allowed, that leads there. -/
def Spells (t : Tree) (text : String) (place : List String) : Prop :=
  ∃ pieces names, text = (Path.ofParts pieces).text ∧ Detour pieces names ∧
    (∀ n ∈ names, IsName n) ∧ t.LeadsTo names place

theorem Spells.key {t : Tree} {text : String} {place : List String} (spells : t.Spells text place)
    (unlinked : t.Unlinked place) : t.key text = (Path.ofParts place).text := by
  obtain ⟨pieces, names, rfl, detour, valid, leads⟩ := spells
  have cleaned := detour.clean_parse valid
  have absolute : (Path.parse (Path.ofParts pieces).text).absolute = true :=
    congrArg Path.absolute cleaned
  unfold Tree.key
  rw [LeadsTo.normalize absolute (by rw [cleaned]; exact leads) unlinked]

theorem spells_text (t : Tree) {parts : List String} (valid : ∀ n ∈ parts, IsName n) :
    t.Spells (Path.ofParts parts).text parts :=
  ⟨parts, parts, rfl, .direct parts, valid, t.leadsTo_self valid⟩

/-! ### Reading -/

/-- What a file holds, where there is one. -/
def contentAt (t : Tree) (parts : List String) : Option (List UInt8) :=
  match t.entry? parts with
  | some (.file content) => some content
  | _ => none

theorem contentAt_isSome {t : Tree} {parts : List String} :
    (t.contentAt parts).isSome ↔ ∃ content, t.entry? parts = some (.file content) := by
  unfold contentAt
  split
  · rename_i content found
    simp [found]
  · rename_i other
    simpa using other

theorem readBytes_text {t : Tree} (formed : t.WellFormed) {parts : List String} (proper : parts ≠ [])
    (valid : ∀ n ∈ parts, IsName n) (unlinked : t.Unlinked parts) :
    (t.readBytes (Path.ofParts parts).text).toOption = t.contentAt parts := by
  unfold readBytes contentAt
  rw [Path.parse_text_of_names valid,
    Path.walkPieces_text proper fun n member => (valid n member).isPiece]
  rw [if_pos (show (Path.ofParts parts).absolute = true from rfl)]
  by_cases present : t.entry? parts = none
  · rw [present]
    split
    · rfl
    · rename_i place walked
      rw [← List.nil_append parts] at unlinked
      rw [walk_straight valid unlinked walked, List.nil_append, present]
      rfl
  · rw [formed.resolve present fun target => unlinked parts target (List.prefix_refl _)]
    dsimp only
    cases t.entry? parts with
    | none => rfl
    | some e => cases e <;> rfl

end Tree

end ModelAtlas.Files
