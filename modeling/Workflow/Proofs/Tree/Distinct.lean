import Mathlib.Data.List.Nodup
import Mathlib.Data.List.Perm.Subperm
import Workflow.Proofs.Tree.Related

/-!
# Distinct identifiers

No two nodes of the tree that is run have one identifier, if the source of identifiers gives none
twice.

* `IdSource.fresh_not_mem` says that an identifier that is drawn is not taken.
* `Node.Extends` is what drawing makes of the identifiers of a tree, and `Node.extends_assignFrom`
  that it does so.
* `Node.nodup_prepare` is the result, and `Node.exists_prepare` says which trees are prepared.
-/

namespace Workflow

/-! ## Hexadecimal digits -/

namespace Text

/-- The number that a hexadecimal digit stands for. -/
def hexValue (c : Char) : Nat :=
  if c.isDigit then c.toNat - 48 else c.toNat - 87

/-- The number that hexadecimal digits stand for. -/
def ofHex (digits : List Char) : Nat :=
  digits.foldl (fun sum c => 16 * sum + hexValue c) 0

theorem hexValue_digitChar : ∀ d, d < 16 → hexValue d.digitChar = d := by
  decide

theorem ofHex_toDigits (n : Nat) : ofHex (Nat.toDigits 16 n) = n := by
  induction n using Nat.strongRecOn with
  | ind n ih =>
    rcases Nat.lt_or_ge n 16 with hlt | hge
    · rw [Nat.toDigits_of_lt_base hlt]
      change 16 * 0 + hexValue n.digitChar = n
      rw [hexValue_digitChar n hlt, Nat.mul_zero, Nat.zero_add]
    · have hhead := ih (n / 16) (by omega)
      rw [ofHex] at hhead ⊢
      rw [Nat.toDigits_of_base_le (by decide) hge, List.foldl_append, hhead]
      change 16 * (n / 16) + hexValue (n % 16).digitChar = n
      rw [hexValue_digitChar _ (Nat.mod_lt n (by decide))]
      omega

/-- Zeros in front do not count. -/
theorem ofHex_replicate_append (k : Nat) (digits : List Char) :
    ofHex (List.replicate k '0' ++ digits) = ofHex digits := by
  induction k with
  | zero => rfl
  | succ k ih => exact ih

/-- A number can be read off its hexadecimal digits. -/
theorem hexDigits_inj {width m n : Nat} (h : hexDigits width m = hexDigits width n) : m = n := by
  have hread (n : Nat) : ofHex (hexDigits width n) = n := by
    rw [hexDigits, ofHex_replicate_append, ofHex_toDigits]
  rw [← hread m, h, hread]

end Text

/-! ## Sources -/

namespace IdSource

/-- If what is drawn is taken, so is everything that was passed over. -/
theorem taken_of_freshWithin {source : IdSource} {taken : List String} {tries : Nat}
    (h : (source.freshWithin taken tries).1 ∈ taken) :
    ∀ k, k ≤ tries → source.draw (source.drawn + k) ∈ taken := by
  induction tries generalizing source with
  | zero =>
    intro k hk
    rw [Nat.le_zero.1 hk]
    exact h
  | succ tries ih =>
    rw [freshWithin] at h
    split at h
    · rename_i hfirst
      intro k hk
      cases k with
      | zero => exact List.contains_iff_mem.1 hfirst
      | succ k =>
        have := ih h k (Nat.le_of_succ_le_succ hk)
        rwa [Nat.add_right_comm, Nat.add_assoc] at this
    · rename_i hfirst
      exact absurd (List.contains_iff_mem.2 h) hfirst

/-- What is drawn is not taken. -/
theorem fresh_not_mem {source : IdSource} (hsource : Function.Injective source.draw)
    (taken : List String) : (source.fresh taken).1 ∉ taken := by
  intro hmem
  -- one more draw than identifiers are taken
  have hdraws := taken_of_freshWithin hmem
  have hnodup : ((List.range (taken.length + 1)).map fun k =>
      source.draw (source.drawn + k)).Nodup :=
    List.Nodup.map (fun i j hij => Nat.add_left_cancel (hsource hij)) List.nodup_range
  have hsub : ((List.range (taken.length + 1)).map fun k =>
      source.draw (source.drawn + k)) ⊆ taken := by
    intro id hid
    obtain ⟨k, hk, rfl⟩ := List.mem_map.1 hid
    exact hdraws k (Nat.le_of_lt_succ (List.mem_range.1 hk))
  have hlength := (List.subperm_of_subset hnodup hsub).length_le
  rw [List.length_map, List.length_range] at hlength
  exact Nat.not_succ_le_self _ hlength

/-- A source that counts gives no identifier twice. -/
theorem draw_countingFrom_injective (start : Nat) :
    Function.Injective (countingFrom start).draw := by
  intro m n h
  have hlist : Text.hexDigits 32 (start + m) = Text.hexDigits 32 (start + n) :=
    String.ofList_injective h
  exact Nat.add_left_cancel (Text.hexDigits_inj hlist)

end IdSource

namespace Node

variable {tree tree' : Node} {r : Header → Header → Prop}

/-! ## The identifiers of a tree -/

theorem ids_mk (header : Header) (work : Work) (children : List Node) :
    (mk header work children).ids = header.id.toList ++ children.flatMap ids := by
  rw [ids, walk, walkList_eq_flatMap, List.filterMap_cons]
  have hchildren : List.filterMap Node.id (children.flatMap walk) = children.flatMap ids := by
    rw [List.filterMap_flatMap]
    rfl
  rw [hchildren]
  cases hid : header.id with
  | none => simp only [Node.id, Node.header, hid, Option.toList_none, List.nil_append]
  | some id =>
    simp only [Node.id, Node.header, hid, Option.toList_some, List.cons_append, List.nil_append]

/-- An identifier that is kept stays in the tree. -/
theorem Related.ids_subset (h : Related r tree tree')
    (hr : ∀ header header', r header header' → header.id.isSome → header'.id = header.id) :
    tree.ids ⊆ tree'.ids := by
  induction h with
  | @mk header header' work children children' hheader hlength hkids ih =>
    intro id hid
    rw [ids_mk, List.mem_append] at hid ⊢
    rcases hid with hid | hid
    · rw [Option.mem_toList] at hid ⊢
      exact .inl (by rw [hr _ _ hheader (by rw [hid]; rfl), hid])
    · obtain ⟨child, hchild, hid⟩ := List.mem_flatMap.1 hid
      obtain ⟨i, hi⟩ := List.getElem?_of_mem hchild
      have hlt : i < children'.length := by
        rw [hlength]
        exact (List.getElem?_eq_some_iff.1 hi).1
      have hi' := List.getElem?_eq_getElem hlt
      exact .inr (List.mem_flatMap.2 ⟨_, List.mem_of_getElem? hi', ih i child _ hi hi' hid⟩)

theorem RelatedList.ids_subset {nodes nodes' : List Node}
    (h : RelatedList Header.Identified nodes nodes') :
    nodes.flatMap ids ⊆ nodes'.flatMap ids := by
  intro id hid
  obtain ⟨node, hnode, hid⟩ := List.mem_flatMap.1 hid
  obtain ⟨i, hi⟩ := List.getElem?_of_mem hnode
  have hlt : i < nodes'.length := by
    rw [h.1]
    exact (List.getElem?_eq_some_iff.1 hi).1
  have hi' := List.getElem?_eq_getElem hlt
  exact List.mem_flatMap.2
    ⟨_, List.mem_of_getElem? hi', (h.2 i node _ hi hi').ids_subset (fun _ _ h => h.2) hid⟩

mutual

/-- Labels leave the identifiers of a tree. -/
theorem ids_labelUnder (separator : String) : (node : Node) → ∀ lineage,
    (labelUnder separator lineage node).ids = node.ids
  | mk header work children => by
    intro lineage
    rw [labelUnder, ids_mk, ids_mk, flatMap_ids_labelListUnder]

theorem flatMap_ids_labelListUnder (separator : String) : (nodes : List Node) → ∀ lineage,
    (labelListUnder separator lineage nodes).flatMap ids = nodes.flatMap ids
  | [] => fun _ => rfl
  | node :: nodes => by
    intro lineage
    rw [labelListUnder, List.flatMap_cons, List.flatMap_cons, ids_labelUnder,
      flatMap_ids_labelListUnder]

end

/-! ## Duplicates -/

theorem firstRepeat_eq_none_iff {seen texts : List String} :
    firstRepeat seen texts = none ↔ texts.Nodup ∧ ∀ id ∈ texts, id ∉ seen := by
  induction texts generalizing seen with
  | nil => simp [firstRepeat]
  | cons id texts ih =>
    rw [firstRepeat]
    split
    · rename_i hseen
      rw [List.contains_iff_mem] at hseen
      simp [hseen]
    · rename_i hseen
      rw [List.contains_iff_mem] at hseen
      rw [ih, List.nodup_cons]
      simp only [List.mem_cons, not_or, forall_eq_or_imp]
      constructor
      · rintro ⟨hnodup, hnot⟩
        exact ⟨⟨fun hmem => (hnot id hmem).1 rfl, hnodup⟩, hseen, fun other hother =>
          (hnot other hother).2⟩
      · rintro ⟨⟨hmem, hnodup⟩, _, hnot⟩
        exact ⟨hnodup, fun other hother => ⟨fun heq => hmem (heq ▸ hother), hnot other hother⟩⟩

/-- Trees pass if no two nodes have one identifier. -/
theorem checkIds_eq_ok_iff : tree.checkIds = .ok () ↔ tree.ids.Nodup := by
  have hiff : firstRepeat [] tree.ids = none ↔ tree.ids.Nodup := by
    rw [firstRepeat_eq_none_iff]
    simp
  rw [← hiff, checkIds]
  cases firstRepeat [] tree.ids <;> simp

/-- The identifier that is found is there twice. -/
theorem count_of_firstRepeat {seen texts : List String} {id : String}
    (h : firstRepeat seen texts = some id) : 2 ≤ (seen ++ texts).count id := by
  induction texts generalizing seen with
  | nil => simp [firstRepeat] at h
  | cons text texts ih =>
    rw [firstRepeat] at h
    split at h
    · rename_i hseen
      rw [List.contains_iff_mem] at hseen
      rw [Option.some.injEq] at h
      subst h
      have hcount := List.count_pos_iff.2 hseen
      rw [List.count_append, List.count_cons_self]
      omega
    · have hcount := ih h
      simp only [List.count_append, List.count_cons] at hcount ⊢
      omega

/-- Trees that do not pass have an identifier twice. -/
theorem count_of_checkIds {cause : DuplicateId} (h : tree.checkIds = .error cause) :
    2 ≤ tree.ids.count cause.id := by
  unfold checkIds at h
  split at h
  · rename_i id hrepeat
    rw [Except.error.injEq] at h
    subst h
    simpa using count_of_firstRepeat hrepeat
  · cases h

/-! ## Drawing -/

/-- What drawing makes of the identifiers of some nodes: they are distinct, and a new one was not
taken before. -/
structure Extends (taken taken' before after : List String) : Prop where
  nodup : after.Nodup
  old : ∀ id ∈ after, id ∈ taken → id ∈ before
  taken : taken ⊆ taken'
  after : after ⊆ taken'

/-- Nodes draw one after the other. -/
theorem Extends.append {taken between taken' before before' after after' : List String}
    (h : Extends taken between before after) (h' : Extends between taken' before' after')
    (hbefore : before' ⊆ taken) (hnodup : (before ++ before').Nodup) :
    Extends taken taken' (before ++ before') (after ++ after') where
  nodup := by
    refine List.nodup_append.2 ⟨h.nodup, h'.nodup, ?_⟩
    rintro id hid other hother rfl
    have hother' := h'.old id hother (h.after hid)
    exact (List.nodup_append.1 hnodup).2.2 id (h.old id hid (hbefore hother')) id hother' rfl
  old id hid htaken := by
    rw [List.mem_append] at hid ⊢
    exact hid.imp (fun hid => h.old id hid htaken) fun hid => h'.old id hid (h.taken htaken)
  taken := fun _ hid => h'.taken (h.taken hid)
  after := by
    intro id hid
    rcases List.mem_append.1 hid with hid | hid
    · exact h'.taken (h.after hid)
    · exact h'.after hid

/-- A node keeps the identifier that it has. -/
theorem Extends.keep {taken taken' before after : List String} {id : Option String}
    (h : Extends taken taken' before after) (hnodup : (id.toList ++ before).Nodup)
    (hsub : id.toList ++ before ⊆ taken) :
    Extends taken taken' (id.toList ++ before) (id.toList ++ after) := by
  have hself : Extends taken taken id.toList id.toList :=
    ⟨(List.nodup_append.1 hnodup).1, fun _ hid _ => hid, fun _ hid => hid,
      fun _ hid => hsub (List.mem_append_left _ hid)⟩
  exact hself.append h (fun _ hid => hsub (List.mem_append_right _ hid)) hnodup

/-- A node takes an identifier that is not taken after those below it. -/
theorem Extends.cons {taken taken' before after : List String} {id : String}
    (h : Extends taken taken' before after) (hfree : id ∉ taken') :
    Extends taken (id :: taken') before (id :: after) where
  nodup := List.nodup_cons.2 ⟨fun hmem => hfree (h.after hmem), h.nodup⟩
  old other hother htaken := by
    rcases List.mem_cons.1 hother with rfl | hother
    · exact absurd (h.taken htaken) hfree
    · exact h.old other hother htaken
  taken := fun _ hid => List.mem_cons_of_mem _ (h.taken hid)
  after := List.cons_subset_cons _ h.after

mutual

/-- Identifiers that are drawn are distinct from each other and from those of the tree. -/
theorem extends_assignFrom : (node : Node) → ∀ source taken,
    Function.Injective source.draw → node.ids.Nodup → node.ids ⊆ taken →
    Extends taken (assignFrom source taken node).2.2 node.ids (assignFrom source taken node).1.ids
  | mk header work children => by
    intro source taken hsource hnodup hsub
    rw [ids_mk] at hnodup hsub
    have hextends := extends_assignListFrom children source taken hsource
      (List.nodup_append.1 hnodup).2.1
      fun id hid => hsub (List.mem_append_right _ hid)
    have hdraw := (related_assignListFrom children source taken).2
    rw [assignFrom, ids_mk]
    split
    rename_i kids rest taken' heq
    rw [heq] at hextends hdraw
    split
    · rw [ids_mk]
      exact hextends.keep hnodup hsub
    · rename_i hnone
      rw [ids_mk, hnone]
      exact hextends.cons (IdSource.fresh_not_mem (hdraw ▸ hsource) taken')

theorem extends_assignListFrom : (nodes : List Node) → ∀ source taken,
    Function.Injective source.draw → (nodes.flatMap ids).Nodup → nodes.flatMap ids ⊆ taken →
    Extends taken (assignListFrom source taken nodes).2.2 (nodes.flatMap ids)
      ((assignListFrom source taken nodes).1.flatMap ids)
  | [] => by
    intro source taken _ _ _
    rw [assignListFrom, List.flatMap_nil]
    exact ⟨List.nodup_nil, fun _ hid _ => hid, fun _ hid => hid, List.nil_subset _⟩
  | node :: nodes => by
    intro source taken hsource hnodup hsub
    rw [List.flatMap_cons] at hnodup hsub
    have hparts := List.nodup_append.1 hnodup
    have hnode := extends_assignFrom node source taken hsource hparts.1
      fun id hid => hsub (List.mem_append_left _ hid)
    have hdraw := (related_assignFrom node source taken).2
    rw [assignListFrom, List.flatMap_cons]
    split
    rename_i first between taken' heq
    rw [heq] at hnode hdraw
    have hnodes := extends_assignListFrom nodes between taken' (hdraw ▸ hsource) hparts.2.1
      fun id hid => hnode.taken (hsub (List.mem_append_right _ hid))
    split
    rename_i others rest taken'' heq'
    rw [heq'] at hnodes
    rw [List.flatMap_cons]
    exact hnode.append hnodes (fun id hid => hsub (List.mem_append_right _ hid)) hnodup

end

/-! ## Taking over -/

mutual

/-- What is taken over from a result is in no conflict with what the tree has. -/
theorem extends_adoptFrom : (node : Node) → ∀ taken result, node.ids.Nodup → node.ids ⊆ taken →
    Extends taken (adoptFrom taken node result).2 node.ids (adoptFrom taken node result).1.ids
  | mk header work children => by
    intro taken result hnodup hsub
    have hsame : Extends taken taken (mk header work children).ids (mk header work children).ids :=
      ⟨hnodup, fun _ hid _ => hid, fun _ hid => hid, hsub⟩
    cases result with
    | none =>
      rw [adoptFrom]
      exact hsame
    | some result =>
      rw [adoptFrom]
      split
      · exact hsame
      · rw [ids_mk] at hnodup hsub
        have hextends := extends_adoptListFrom children taken (counterparts work result)
          (List.nodup_append.1 hnodup).2.1 fun id hid => hsub (List.mem_append_right _ hid)
        rw [ids_mk]
        split
        rename_i kids taken' heq
        rw [heq] at hextends
        have hkept : Extends taken taken' (header.id.toList ++ children.flatMap ids)
            (mk header work kids).ids := by
          rw [ids_mk]
          exact hextends.keep hnodup hsub
        split
        · rename_i id hnone _
          split
          · exact hkept
          · rename_i hfree
            rw [List.contains_iff_mem] at hfree
            rw [hnone, Option.toList_none, List.nil_append, ids_mk]
            exact hextends.cons hfree
        · exact hkept

theorem extends_adoptListFrom : (nodes : List Node) → ∀ taken results,
    (nodes.flatMap ids).Nodup → nodes.flatMap ids ⊆ taken →
    Extends taken (adoptListFrom taken nodes results).2 (nodes.flatMap ids)
      ((adoptListFrom taken nodes results).1.flatMap ids)
  | [] => by
    intro taken results _ _
    rw [adoptListFrom, List.flatMap_nil]
    exact ⟨List.nodup_nil, fun _ hid _ => hid, fun _ hid => hid, List.nil_subset _⟩
  | node :: nodes => by
    intro taken results hnodup hsub
    rw [List.flatMap_cons] at hnodup hsub
    have hparts := List.nodup_append.1 hnodup
    have hnode := extends_adoptFrom node taken results.head?.join hparts.1
      fun id hid => hsub (List.mem_append_left _ hid)
    rw [adoptListFrom, List.flatMap_cons]
    split
    rename_i first between heq
    rw [heq] at hnode
    have hnodes := extends_adoptListFrom nodes between results.tail hparts.2.1
      fun id hid => hnode.taken (hsub (List.mem_append_right _ hid))
    split
    rename_i others rest heq'
    rw [heq'] at hnodes
    rw [List.flatMap_cons]
    exact hnode.append hnodes (fun id hid => hsub (List.mem_append_right _ hid)) hnodup

end

/-! ## Preparation -/

theorem nodup_of_assignIds {ids rest : IdSource} (h : tree.assignIds ids = .ok (tree', rest)) :
    tree.ids.Nodup := by
  unfold assignIds at h
  split at h
  · cases h
  · rename_i hcheck
    exact checkIds_eq_ok_iff.1 hcheck

theorem assignIds_of_nodup (hnodup : tree.ids.Nodup) (ids : IdSource) :
    tree.assignIds ids =
      .ok ((assignFrom ids tree.ids tree).1, (assignFrom ids tree.ids tree).2.1) := by
  rw [assignIds, checkIds_eq_ok_iff.2 hnodup]

/-- No two nodes of the tree with the identifiers that are recovered have one identifier. -/
theorem nodup_recovered (hnodup : tree.ids.Nodup) (separator : String)
    (previous : Option Result) : (tree.recovered separator previous).ids.Nodup := by
  cases previous with
  | none => exact hnodup
  | some result =>
    have hlabelled : (tree.deriveLabels separator).ids.Nodup := by
      rwa [deriveLabels, ids_labelUnder]
    exact (extends_adoptFrom _ _ _ hlabelled fun _ hid => hid).nodup

variable {separator : String} {previous : Option Result} {ids rest : IdSource}

/-- A tree is prepared if no two of its nodes have one identifier, whatever is recovered. -/
theorem exists_prepare (hnodup : tree.ids.Nodup) (separator : String) (previous : Option Result)
    (ids : IdSource) : ∃ tree' rest, tree.prepare separator previous ids = .ok (tree', rest) := by
  have hassign := assignIds_of_nodup (nodup_recovered hnodup separator previous) ids
  unfold prepare
  cases previous with
  | none =>
    rw [recovered] at hassign
    simp only [bind, Except.bind, pure, Except.pure, hassign]
    exact ⟨_, _, rfl⟩
  | some result =>
    have hadopt : (tree.deriveLabels separator).adoptIds result =
        .ok (tree.recovered separator (some result)) := by
      have hcheck : (tree.deriveLabels separator).checkIds = .ok () := by
        rwa [checkIds_eq_ok_iff, deriveLabels, ids_labelUnder]
      rw [adoptIds, hcheck, recovered]
    simp only [bind, Except.bind, pure, Except.pure, hadopt, hassign]
    exact ⟨_, _, rfl⟩

/-- A tree that does not pass is not prepared, whatever is recovered. -/
theorem prepare_of_checkIds {cause : DuplicateId} (h : tree.checkIds = .error cause)
    (separator : String) (previous : Option Result) (ids : IdSource) :
    tree.prepare separator previous ids = .error cause := by
  unfold prepare
  cases previous with
  | none => simp only [bind, Except.bind, pure, Except.pure, assignIds, h]
  | some result =>
    have hlabels : (tree.deriveLabels separator).checkIds = .error cause := by
      rw [← h, checkIds, checkIds, deriveLabels, ids_labelUnder]
    simp only [bind, Except.bind, adoptIds, hlabels]

/-- No two nodes of a tree that is prepared have one identifier. -/
theorem nodup_of_prepare (h : tree.prepare separator previous ids = .ok (tree', rest)) :
    tree.ids.Nodup := by
  unfold prepare at h
  cases previous with
  | none =>
    simp only [bind, Except.bind, pure, Except.pure] at h
    split at h
    · cases h
    · rename_i assigned hassigned
      exact nodup_of_assignIds hassigned
  | some result =>
    simp only [bind, Except.bind] at h
    split at h
    · cases h
    · rename_i adopted hadopted
      unfold adoptIds at hadopted
      split at hadopted
      · cases hadopted
      · rename_i hcheck
        rwa [checkIds_eq_ok_iff, deriveLabels, ids_labelUnder] at hcheck

/-- No two nodes of the tree that is run have one identifier. -/
theorem nodup_prepare (hids : Function.Injective ids.draw)
    (h : tree.prepare separator previous ids = .ok (tree', rest)) : tree'.ids.Nodup := by
  obtain ⟨assigned, hassigned, rfl⟩ := prepare_eq h
  have hnodup := nodup_of_assignIds hassigned
  rw [assignIds_of_nodup hnodup, Except.ok.injEq, Prod.mk.injEq] at hassigned
  rw [deriveLabels, ids_labelUnder, ← hassigned.1]
  exact (extends_assignFrom _ ids _ hids hnodup fun _ hid => hid).nodup

end Node
end Workflow
