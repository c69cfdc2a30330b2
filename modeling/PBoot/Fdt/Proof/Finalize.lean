import PBoot.Fdt.Proof.Selection

/-!
# The device tree from `boot_finalize` on

What `boot_finalize` makes of a device tree: the edits of `Dt.finalize`, and a blob whose end is on a
page boundary. The numbers of cells are those of the root node at the start, since no edit of a boot
sets or deletes their properties.

* `cellsAt_selected`, `cellsAt_wifi` and the like: the edits keep the numbers of cells.
* `fdtInitrd_tree`, `fdtFixupMemory_tree`: the initramfs and the memory.
* `DtIs.wifi`, `DtIs.pboot`, `DtIs.bootargs`: the other edits.
* `DtIs.finalize`, `DtIs.boot`: all of them, and all edits of a boot.
-/

namespace PBoot

open Bytes Progs Trees

variable {m₀ m : Mem} {fdt total room k : Nat} {t : Dt} {z : DtLoc} {name val path : List UInt8}

/-! ## The cells of the root node -/

/-- `fdt_address_cells` and `fdt_size_cells` of a node. -/
def cellsAt (n : DtNode) : Except FdtError Nat × Except FdtError Nat := (addressCells n, sizeCells n)

/-- The properties that hold the numbers of cells. -/
def cellNames : List DtName := [ascii "#address-cells", ascii "#size-cells"]

theorem cellsAt_congr {n n' : DtNode}
    (h : ∀ c ∈ cellNames, getProp (isNamed c) n.props = getProp (isNamed c) n'.props) :
    cellsAt n = cellsAt n' := by
  have ha := h (ascii "#address-cells") List.mem_cons_self
  have hs := h (ascii "#size-cells") (List.mem_cons_of_mem _ List.mem_cons_self)
  rw [cellsAt, cellsAt, addressCells, addressCells, sizeCells, sizeCells, cellsOf, cellsOf, cellsOf,
    cellsOf, ha, hs]

/-- Other properties of a node, with the same numbers of cells. -/
theorem cellsAt_top_withProps {ps : List (Option DtProp)}
    (h : ∀ c ∈ cellNames, getProp (isNamed c) ps = getProp (isNamed c) z.node.props) :
    cellsAt (z.withProps ps).top = cellsAt z.top := by
  refine cellsAt_congr fun c hc => ?_
  rw [Loc.top_props, Loc.topProps_withProps, Loc.top_props]
  by_cases hctx : z.ctx = []
  · rw [if_pos hctx, h c hc, Loc.topProps, hctx]
    rfl
  · rw [if_neg hctx]

theorem cellsAt_top_set (hne : name ∉ cellNames) : cellsAt (z.set name val).top = cellsAt z.top := by
  refine cellsAt_top_withProps fun c hc => ?_
  have hc' : c ≠ name := fun h => hne (h ▸ hc)
  exact getProp_setProp (fun _ _ => rfl) (isNamed_disjoint hc') (by simpa [isNamed] using hc'.symm)

theorem cellsAt_top_del (hne : name ∉ cellNames) : cellsAt (z.del name).top = cellsAt z.top :=
  cellsAt_top_withProps fun _ hc => getProp_delProp (isNamed_disjoint fun h => hne (h ▸ hc))

/-- The root keeps its properties when a node is looked up or added. -/
theorem cellsAt_kid (t : Dt) (name : DtName) : cellsAt (t.kid name).top = cellsAt t.root := by
  refine cellsAt_congr fun _ _ => ?_
  unfold Dt.kid kidOrNew
  cases hd : t.root.loc.down (nameMatches name) with
  | none =>
    rw [Option.getD_none, Loc.top_addKid_props]
    rfl
  | some z' =>
    rw [Option.getD_some, Loc.top_down hd]
    rfl

theorem cellsAt_atPath {f : DtLoc → DtNode}
    (hf : ∀ z, t.root.at path = some z → cellsAt (f z) = cellsAt z.top) :
    cellsAt (t.atPath path f).root = cellsAt t.root := by
  unfold Dt.atPath
  cases hz : t.root.at path with
  | none => rfl
  | some z => exact (hf z hz).trans (congrArg cellsAt (Loc.top_find hz))

theorem cellsAt_prepare (t : Dt) : cellsAt t.prepare.root = cellsAt t.root := cellsAt_kid t _

theorem cellsAt_splash (splashFb : Nat) (t : Dt) :
    cellsAt (t.splash splashFb).root = cellsAt t.root := by
  unfold Dt.splash
  split
  · rfl
  · exact ((cellsAt_top_set (by decide)).trans (cellsAt_top_set (by decide))).trans (cellsAt_kid t _)

theorem cellsAt_disableAll (paths : List (List UInt8)) (t : Dt) :
    cellsAt (paths.foldl Dt.disable t).root = cellsAt t.root := by
  induction paths generalizing t with
  | nil => rfl
  | cons path paths ih =>
    exact (ih _).trans (cellsAt_atPath fun _ _ => cellsAt_top_set (by decide))

theorem cellsAt_privacy (t : Dt) : cellsAt t.privacy.root = cellsAt t.root :=
  (cellsAt_atPath fun _ _ => cellsAt_top_set (by decide)).trans (cellsAt_disableAll _ t)

theorem cellsAt_modemManager (t : Dt) : cellsAt t.modemManager.root = cellsAt t.root := by
  have hremove : cellsAt (t.atPath modemPath Loc.remove).root = cellsAt t.root :=
    cellsAt_atPath fun z _ => cellsAt_congr fun _ _ => by rw [Loc.remove_props]
  exact (cellsAt_atPath fun _ _ => cellsAt_top_set (by decide)).trans hremove

theorem cellsAt_selection (privacy : Bool) (bootargs : List UInt8) (t : Dt) :
    cellsAt (t.selection privacy bootargs).root = cellsAt t.root := by
  have hadc : cellsAt (t.atPath adcPath fun z =>
      (z.del (ascii "x-powers,ts-as-gpadc")).top).root = cellsAt t.root :=
    cellsAt_atPath fun _ _ => cellsAt_top_del (by decide)
  rw [← hadc]
  unfold Dt.selection
  dsimp only
  split
  · exact cellsAt_privacy _
  split
  · exact cellsAt_modemManager _
  · rfl

/-- The tree that `boot_finalize` gets has the cells of the tree that was loaded. -/
theorem cellsAt_selected (b : BootSetup) (t : Dt) : cellsAt (t.selected b).root = cellsAt t.root :=
  ((cellsAt_selection _ _ _).trans (cellsAt_splash _ _)).trans (cellsAt_prepare t)

theorem cellsAt_wifi (sid : Sid) (t : Dt) : cellsAt (t.wifi sid).root = cellsAt t.root := by
  unfold Dt.wifi
  cases hz : t.enabledNode (ascii "ethernet0") with
  | none => rfl
  | some z =>
    cases (getMacAddress sid 0).1 with
    | none => rfl
    | some mac =>
      have htop : z.top = t.root := by
        obtain ⟨hz, -⟩ := Option.filter_eq_some_iff.1 hz
        obtain ⟨p, -, hz⟩ := Option.bind_eq_some_iff.1 hz
        exact Loc.top_find hz
      dsimp only
      rw [← htop]
      unfold DtLoc.setMac
      refine (cellsAt_top_set (by decide)).trans ?_
      split
      · exact cellsAt_top_set (by decide)
      · rfl

theorem cellsAt_top_setIfSome {val : Option (List UInt8)} (hne : name ∉ cellNames) :
    cellsAt (z.setIfSome name val).top = cellsAt z.top := by
  cases val with
  | none => rfl
  | some v => exact cellsAt_top_set hne

theorem cellsAt_pboot (d : PbootData) (t : Dt) : cellsAt (t.pboot d).root = cellsAt t.root :=
  ((cellsAt_top_setIfSome (by decide)).trans (cellsAt_top_setIfSome (by decide))).trans
    (cellsAt_kid t _)

theorem cellsAt_bootargs (args : List UInt8) (t : Dt) :
    cellsAt (t.bootargs args).root = cellsAt t.root :=
  (cellsAt_top_set (by decide)).trans (cellsAt_kid t _)

theorem cellsAt_memory (ac sc start size : Nat) (t : Dt) :
    cellsAt (t.memory ac sc start size).root = cellsAt t.root :=
  ((cellsAt_top_set (by decide)).trans (cellsAt_top_set (by decide))).trans (cellsAt_kid t _)

/-! ## The initramfs -/

theorem DtSince.setpropUxx {rsv : Rsv} {z : DtLoc} {o v ac : Nat}
    (h : DtSince m₀ m fdt total room rsv z o) (h0 : 0 ∉ name)
    (hk : name.length + 21 ≤ k) (hr : k ≤ room) :
    wp (fdtSetpropUxx fdt o name v (ac == 2)) (fun res m' => res = .ok () ∧
      DtSince m₀ m' fdt total (room - k) rsv (z.set name (cellBytes ac v)) o) m := by
  unfold fdtSetpropUxx cellBytes
  by_cases hac : ac = 2
  · rw [if_pos (by simp [hac]), if_pos hac]
    refine h.setprop h0 ?_ hr
    have hlen : (be64 v).length = 8 := length_be64 v
    rw [propRoom, hlen, show tagAlign 8 = 8 from rfl]
    omega
  · rw [if_neg (by simp [hac]), if_neg hac]
    refine h.setprop h0 ?_ hr
    rw [propRoom, length_be32, show tagAlign 4 = 4 from rfl]
    omega

theorem DtIs.initrd {ac s e : Nat} (h : DtIs m₀ m fdt total room t)
    (hac : addressCells t.root = .ok ac) (hse : s < e) (he : e < 2 ^ 64) (hr : 109 ≤ room) :
    wp (fdtInitrd fdt s e) (fun res m' => res = .ok () ∧
      DtIs m₀ m' fdt total (room - 109) (t.initrd ac s e)) m := by
  have hsize : (e + 2 ^ 64 - s) % 2 ^ 64 = e - s := by omega
  rw [fdtInitrd, if_neg (by omega), hsize]
  refine wp_bind ((h.kid (by decide) (by decide : _ ≤ 16) (by omega)).mono ?_)
  rintro _ m₁ ⟨o, rfl, h₁⟩
  refine wp_bind ((h₁.delMemRsvAt s).mono ?_)
  rintro _ m₂ ⟨rfl, h₂⟩
  have hfits : rsvFits (s, e - s) := ⟨Nat.lt_trans hse he, Nat.sub_pos_of_lt hse,
    Nat.lt_of_le_of_lt (Nat.sub_le _ _) he⟩
  refine wp_bind ((h₂.addMemRsv hfits (by omega)).mono ?_)
  rintro _ m₃ ⟨rfl, h₃⟩
  have hcells : fdtAddressCells m₃ fdt 0 = some (.ok ac) := by
    rw [h₃.root.tree.addressCells, ← hac]
    exact congrArg some (congrArg Prod.fst (cellsAt_kid t _))
  refine wp_bind (wp_reads (by rw [isU64, hcells]; rfl) ?_)
  dsimp only
  refine wp_bind ((h₃.setpropUxx (by decide) (by decide : _ ≤ 39) (by omega)).mono ?_)
  rintro _ m₄ ⟨rfl, h₄⟩
  refine (h₄.setpropUxx (by decide) (by decide : _ ≤ 37) (by omega)).mono ?_
  rintro _ m₅ ⟨rfl, h₅⟩
  exact ⟨rfl, h₅.root.mono (by omega)⟩

/-- **`fdt_initrd` tells the kernel where the initramfs is**: the two properties of `/chosen` have as
many cells as the root's addresses, the reservation of an earlier one that starts there is replaced. -/
theorem fdtInitrd_tree {m : Mem} {ac s e : Nat} (h : DtAt m fdt total room t.rsv t.root.loc 0)
    (hac : addressCells t.root = .ok ac) (hse : s < e) (he : e < 2 ^ 64) (hr : 109 ≤ room) :
    wp (fdtInitrd fdt s e) (fun res m' => res = .ok () ∧ SameOutside m m' fdt total ∧
      DtAt m' fdt total (room - 109) (t.initrd ac s e).rsv (t.initrd ac s e).root.loc 0) m :=
  (DtIs.initrd ⟨SameOutside.rfl, h⟩ hac hse he hr).mono fun _ _ ⟨hres, h'⟩ =>
    ⟨hres, h'.same, h'.tree⟩

theorem fdtInitrd_tree_small : wp (fdtInitrd 64 4096 8192) (fun res m' => res = .ok () ∧
    DtAt m' 64 4625 4291 [(4096, 4096)] (smallTree.initrd 2 4096 8192).root.loc 0) smallMem := by
  refine (fdtInitrd_tree smallTree_at rfl (by decide) (by decide) (by decide)).mono ?_
  rintro res m' ⟨hres, -, htree⟩
  exact ⟨hres, htree⟩

/-! ## The memory -/

theorem DtAt.magic {rsv : Rsv} {z : DtLoc} {o : Nat} (h : DtAt m fdt total room rsv z o) :
    fdt32 m fdt = 0xd00dfeed := by
  obtain ⟨b, zc, hat, -⟩ := h
  exact hat.magic

theorem packReg_eq {m : Mem} {ac sc start size : Nat} (hac : fdtAddressCells m fdt 0 = some (.ok ac))
    (hsc : fdtSizeCells m fdt 0 = some (.ok sc)) (ha : ac = 1 ∨ ac = 2) (hs : sc = 1 ∨ sc = 2) :
    fdtPackReg m fdt [(start, size)] = some (cellBytes ac start ++ cellBytes sc size) := by
  rw [fdtPackReg, hac, hsc]
  rcases ha with rfl | rfl <;> rcases hs with rfl | rfl <;> rfl

theorem length_cellBytes_le (cells v : Nat) : (cellBytes cells v).length ≤ 8 := by
  unfold cellBytes
  split
  · exact Nat.le_refl 8
  · rw [length_be32]
    decide

theorem DtIs.memory {ac sc start size : Nat} (h : DtIs m₀ m fdt total room t)
    (hac : addressCells t.root = .ok ac) (hsc : sizeCells t.root = .ok sc) (ha : ac = 1 ∨ ac = 2)
    (hs : sc = 1 ∨ sc = 2) (hsize : 0 < size) (hr : 80 ≤ room) :
    wp (fdtFixupMemory fdt start size) (fun res m' => res = .ok () ∧
      DtIs m₀ m' fdt total (room - 80) (t.memory ac sc start size)) m := by
  rw [fdtFixupMemory, fdtFixupMemoryBanks, if_neg (by rw [List.length_singleton]; decide)]
  refine wp_bind (wp_look ?_)
  dsimp only
  rw [h.tree.magic, if_neg (by decide)]
  refine wp_bind ((h.kid (by decide) (by decide : _ ≤ 16) (by omega)).mono ?_)
  rintro _ m₁ ⟨o, rfl, h₁⟩
  refine wp_bind ((h₁.setprop (by decide) (by decide : _ ≤ 32) (by omega)).mono ?_)
  rintro _ m₂ ⟨rfl, h₂⟩
  have hbanks : [(start, size)].takeWhile (fun b => !(b.1 == 0 && b.2 == 0)) = [(start, size)] := by
    have hne : (size == 0) = false := beq_false_of_ne (by omega)
    simp [hne]
  dsimp only
  rw [hbanks, if_neg (List.cons_ne_nil _ _)]
  have hcells : cellsAt ((t.kid (ascii "memory")).set (ascii "device_type")
      (ascii "memory" ++ [0])).top = cellsAt t.root :=
    (cellsAt_top_set (by decide)).trans (cellsAt_kid t _)
  have hac₂ : fdtAddressCells m₂ fdt 0 = some (.ok ac) := by
    rw [h₂.root.tree.addressCells, ← hac]
    exact congrArg some (congrArg Prod.fst hcells)
  have hsc₂ : fdtSizeCells m₂ fdt 0 = some (.ok sc) := by
    rw [h₂.root.tree.sizeCells, ← hsc]
    exact congrArg some (congrArg Prod.snd hcells)
  refine wp_bind (wp_reads (by rw [packReg_eq hac₂ hsc₂ ha hs]; rfl) ?_)
  dsimp only
  have hk : propRoom (ascii "reg") (cellBytes ac start ++ cellBytes sc size) ≤ 32 := by
    have h1 := length_cellBytes_le ac start
    have h2 := length_cellBytes_le sc size
    have hname : (ascii "reg").length = 3 := rfl
    rw [propRoom, List.length_append, hname, tagAlign]
    omega
  refine (h₂.setprop (by decide) hk (by omega)).mono ?_
  rintro _ m₃ ⟨rfl, h₃⟩
  exact ⟨rfl, h₃.root.mono (by omega)⟩

/-- **`fdt_fixup_memory` describes the memory** in the cells of the root node. -/
theorem fdtFixupMemory_tree {m : Mem} {ac sc start size : Nat}
    (h : DtAt m fdt total room t.rsv t.root.loc 0) (hac : addressCells t.root = .ok ac)
    (hsc : sizeCells t.root = .ok sc) (ha : ac = 1 ∨ ac = 2) (hs : sc = 1 ∨ sc = 2)
    (hsize : 0 < size) (hr : 80 ≤ room) :
    wp (fdtFixupMemory fdt start size) (fun res m' => res = .ok () ∧ SameOutside m m' fdt total ∧
      DtAt m' fdt total (room - 80) (t.memory ac sc start size).rsv
        (t.memory ac sc start size).root.loc 0) m :=
  (DtIs.memory ⟨SameOutside.rfl, h⟩ hac hsc ha hs hsize hr).mono fun _ _ ⟨hres, h'⟩ =>
    ⟨hres, h'.same, h'.tree⟩

theorem fdtFixupMemory_tree_small : wp (fdtFixupMemory 64 0x40000000 4096) (fun res m' =>
    res = .ok () ∧ DtAt m' 64 4625 4320 [] (smallTree.memory 2 1 0x40000000 4096).root.loc 0)
    smallMem := by
  refine (fdtFixupMemory_tree smallTree_at rfl rfl (.inr rfl) (.inl rfl) (by decide)
    (by decide)).mono ?_
  rintro res m' ⟨hres, -, htree⟩
  exact ⟨hres, htree⟩

/-! ## The Wi-Fi node -/

/-- An alias, and the state of the node that it leads to, end within their values; the alias is an
absolute path. -/
structure Dt.AliasOk (t : Dt) (name : DtName) : Prop where
  path : ∀ val, ((t.root.at (ascii "/aliases")).bind fun z => z.get name) = some val →
    0 ∈ val ∧ val.head? = some 47
  status : ∀ p z val, t.aliasPath name = some p → t.root.at p = some z →
    z.get (ascii "status") = some val → 0 ∈ val

/-- Whether `fdt_get_alias_node` returns the path of a node. -/
theorem DtAt.status {o : Nat} (h : DtAt m fdt total room t.rsv z o)
    (hnul : ∀ val, z.get (ascii "status") = some val → 0 ∈ val) (path : Nat) :
    (fdtGetProperty m fdt o (ascii "status")).map (pathIfEnabled m fdt path) =
      some (if (z.get (ascii "status")).map cstr = some (ascii "disabled") then none else some path) := by
  have hget := h.getProperty (by decide : 0 ∉ ascii "status")
  unfold DtLoc.get at hnul ⊢
  cases hp : getProp (isNamed (ascii "status")) z.node.props with
  | none =>
    rw [hp] at hget
    rw [hget]
    rfl
  | some p =>
    rw [hp] at hget hnul
    obtain ⟨o', hget, -, hval, -⟩ := hget
    have hdisabled := isStr_eq (by decide : 0 ∉ ascii "disabled") (hnul p.2 rfl) hval
    rw [hget, Option.map_some, pathIfEnabled, hdisabled]
    simp

/-- The path that an alias stands for can be read. -/
theorem DtAt.getAlias_path (h : DtAt m fdt total room t.rsv t.root.loc 0) (h0 : 0 ∉ name)
    (ht : t.AliasOk name) (hp : t.aliasPath name = some path) :
    ∃ a, fdtGetAlias m fdt name = some (some a) ∧ strAt m a = some path ∧
      path.head? = some 47 ∧ 0 ∉ path := by
  obtain ⟨val, hval, rfl⟩ := Option.map_eq_some_iff.1 hp
  obtain ⟨a, ha, hholds, hle⟩ := h.getAlias_some h0 hval
  obtain ⟨hnul, hslash⟩ := ht.path val hval
  refine ⟨a, ha, strAt_eq hnul hholds hle, ?_, not_mem_cstr val⟩
  obtain ⟨rest, rfl⟩ := List.head?_eq_some_iff.1 hslash
  rfl

/-- **`fdt_get_alias_node` points to the path of the node**, if it is there and not disabled. -/
theorem DtAt.getAliasNode_some (h : DtAt m fdt total room t.rsv t.root.loc 0) (h0 : 0 ∉ name)
    (ht : t.AliasOk name) (hz : t.enabledNode name = some z) :
    ∃ a p o, fdtGetAliasNode m fdt name = some (some a) ∧ strAt m a = some p ∧
      fdtPathOffset m fdt p = some (.ok o) ∧ DtAt m fdt total room t.rsv z o := by
  obtain ⟨hz, henabled⟩ := Option.filter_eq_some_iff.1 hz
  obtain ⟨p, hp, hz⟩ := Option.bind_eq_some_iff.1 hz
  obtain ⟨a, ha, hstr, hhead, hnul⟩ := h.getAlias_path h0 ht hp
  obtain ⟨o, ho, hat⟩ := h.path_some hnul hhead hz
  refine ⟨a, p, o, ?_, hstr, ho, hat⟩
  rw [fdtGetAliasNode, ha, Option.bind_some]
  dsimp only
  rw [hstr, Option.bind_some, ho, Option.bind_some]
  dsimp only
  rw [hat.status fun v => ht.status p z v hp hz, if_neg (bne_iff_ne.1 henabled)]

theorem DtAt.getAliasNode_none (h : DtAt m fdt total room t.rsv t.root.loc 0) (h0 : 0 ∉ name)
    (ht : t.AliasOk name) (hnone : t.enabledNode name = none) :
    fdtGetAliasNode m fdt name = some none := by
  cases hp : t.aliasPath name with
  | none =>
    rw [fdtGetAliasNode, h.getAlias_none h0 (Option.map_eq_none_iff.1 hp)]
    rfl
  | some p =>
    obtain ⟨a, ha, hstr, hhead, hnul⟩ := h.getAlias_path h0 ht hp
    rw [fdtGetAliasNode, ha, Option.bind_some]
    dsimp only
    rw [hstr, Option.bind_some]
    cases hz : t.root.at p with
    | none =>
      rw [h.path_none hnul hhead hz]
      rfl
    | some z =>
      obtain ⟨o, ho, hat⟩ := h.path_some hnul hhead hz
      have hdisabled : (z.get (ascii "status")).map cstr = some (ascii "disabled") := by
        by_contra hne
        rw [Dt.enabledNode, hp, Option.bind_some, hz, Option.filter_some,
          if_pos (bne_iff_ne.2 hne)] at hnone
        cases hnone
      rw [ho, Option.bind_some]
      dsimp only
      rw [hat.status fun v => ht.status p z v hp hz, if_pos hdisabled]

/-- A property that is not there is not created. -/
theorem DtSince.findAndSetprop_absent {rsv : Rsv} {a o : Nat} (h : DtSince m₀ m fdt total room rsv z o)
    (hs : strAt m a = some path) (ho : fdtPathOffset m fdt path = some (.ok o)) (h0 : 0 ∉ name)
    (hnone : z.get name = none) :
    wp (findAndSetpropAt fdt a name val false) (fun _ m' => m' = m) m := by
  have hget := h.tree.getProperty h0
  rw [DtLoc.get, Option.map_eq_none_iff] at hnone
  rw [hnone] at hget
  refine wp_bind (wp_reads (by rw [hs]; rfl) ?_)
  exact wp_bind (wp_reads ho (wp_bind (wp_attempt (wp_reads hget (wp_pure rfl)))))

theorem DtSince.findAndSetprop {rsv : Rsv} {a o : Nat} (h : DtSince m₀ m fdt total room rsv z o)
    (hs : strAt m a = some path) (ho : fdtPathOffset m fdt path = some (.ok o)) (h0 : 0 ∉ name)
    (hk : propRoom name val ≤ k) (hr : k ≤ room) :
    wp (findAndSetpropAt fdt a name val true) (fun _ m' =>
      DtSince m₀ m' fdt total (room - k) rsv (z.set name val) o) m := by
  have hget := h.tree.getProperty h0
  have hset : wp (fdtSetprop fdt o name val) (fun _ m' =>
      DtSince m₀ m' fdt total (room - k) rsv (z.set name val) o) m :=
    (h.setprop h0 hk hr).mono fun _ _ ⟨_, h'⟩ => h'
  refine wp_bind (wp_reads (by rw [hs]; rfl) ?_)
  refine wp_bind (wp_reads ho (wp_bind (wp_attempt ?_)))
  cases hp : getProp (isNamed name) z.node.props with
  | none =>
    rw [hp] at hget
    exact wp_reads hget hset
  | some p =>
    rw [hp] at hget
    obtain ⟨o', hget, -⟩ := hget
    exact wp_reads hget hset

/-- What `fdt_fixup_wifi` relies on. An update of a `mac-address` that is there could move the alias,
of which it keeps a pointer. -/
structure Dt.WifiOk (t : Dt) : Prop where
  aliasOk : t.AliasOk (ascii "ethernet0")
  mac : ∀ z, t.enabledNode (ascii "ethernet0") = some z → z.get (ascii "mac-address") = none

theorem length_mac {sid : Sid} {no : BitVec 32} {mac : List (BitVec 8)}
    (h : (getMacAddress sid no).1 = some mac) : mac.length = 6 := by
  unfold getMacAddress at h
  split at h
  · cases h
  · cases h
    rfl

theorem DtIs.wifi {sid : Sid} (h : DtIs m₀ m fdt total room t) (ht : t.WifiOk) (hr : 38 ≤ room) :
    wp (fdtFixupWifi fdt sid) (fun res m' => res = .ok () ∧
      DtIs m₀ m' fdt total (room - 38) (t.wifi sid)) m := by
  have h0 : 0 ∉ ascii "ethernet0" := by decide
  unfold Dt.wifi
  cases hz : t.enabledNode (ascii "ethernet0") with
  | none =>
    have halias := h.tree.getAliasNode_none h0 ht.aliasOk hz
    refine wp_bind (wp_reads (by rw [halias]; rfl) ?_)
    exact wp_pure ⟨rfl, h.mono (Nat.sub_le _ _)⟩
  | some z =>
    obtain ⟨a, p, o, ha, hp, ho, hat⟩ := h.tree.getAliasNode_some h0 ht.aliasOk hz
    have h₁ : DtSince m₀ m fdt total room t.rsv z o := ⟨h.same, hat⟩
    have hnone := ht.mac z hz
    refine wp_bind (wp_reads (by rw [ha]; rfl) ?_)
    dsimp only
    cases hsid : (getMacAddress sid 0).1 with
    | none => exact wp_pure ⟨rfl, h.mono (Nat.sub_le _ _)⟩
    | some mac =>
      have hk : propRoom (ascii "local-mac-address") (mac.map UInt8.ofBitVec) ≤ 38 := by
        rw [propRoom, List.length_map, length_mac hsid]
        decide
      refine wp_bind (wp_attempt ((h₁.findAndSetprop_absent hp ho (by decide) hnone).mono ?_))
      rintro _ _ rfl
      refine wp_bind (wp_attempt ((h₁.findAndSetprop hp ho (by decide) hk hr).mono ?_))
      rintro _ m₂ h₂
      have hset : z.setMac (mac.map UInt8.ofBitVec) =
          z.set (ascii "local-mac-address") (mac.map UInt8.ofBitVec) := by
        unfold DtLoc.setMac
        rw [hnone]
        rfl
      refine wp_pure ⟨rfl, ?_⟩
      dsimp only
      rw [hset]
      exact h₂.root

/-! ## The other edits -/

theorem DtSince.setIfSome {rsv : Rsv} {o : Nat} {val : Option (List UInt8)}
    (h : DtSince m₀ m fdt total room rsv z o) (h0 : 0 ∉ name)
    (hk : ∀ v ∈ val, propRoom name v ≤ k) (hr : k ≤ room) :
    wp (setpropIfSome fdt o name val) (fun res m' => res = .ok () ∧
      DtSince m₀ m' fdt total (room - k) rsv (z.setIfSome name val) o) m := by
  cases val with
  | none => exact wp_pure ⟨rfl, h.mono (Nat.sub_le _ _)⟩
  | some v =>
    refine wp_bind (wp_attempt ((h.setprop h0 (hk v rfl) hr).mono ?_))
    rintro _ m' ⟨-, h'⟩
    exact wp_pure ⟨rfl, h'⟩

/-- The list of configurations is built in 8 KiB, the log in 128 KiB. -/
structure PbootData.Fits (d : PbootData) : Prop where
  configs : ∀ v ∈ d.configs, v.length ≤ 32 * 256
  log : ∀ v ∈ d.log, v.length ≤ 128 * 1024

theorem propRoom_le {n : Nat} (h : val.length ≤ n) : propRoom name val ≤ name.length + n + 16 := by
  unfold propRoom tagAlign
  omega

theorem DtIs.pboot {d : PbootData} (h : DtIs m₀ m fdt total room t) (hd : d.Fits)
    (hr : 139322 ≤ room) :
    wp (fdtAddPbootData fdt d) (fun res m' => res = .ok () ∧
      DtIs m₀ m' fdt total (room - 139322) (t.pboot d)) m := by
  refine wp_bind (wp_attempt ((h.kid (by decide) (by decide : _ ≤ 16) (by omega)).mono ?_))
  rintro _ m₁ ⟨o, rfl, h₁⟩
  dsimp only
  have hconfigs : ∀ v ∈ d.configs, propRoom (ascii "configs") v ≤ 8215 := fun v hv =>
    propRoom_le (hd.configs v hv)
  have hlog : ∀ v ∈ d.log, propRoom (ascii "log") v ≤ 131091 := fun v hv => propRoom_le (hd.log v hv)
  refine wp_bind ((h₁.setIfSome (by decide) hconfigs (by omega)).mono ?_)
  rintro _ m₂ ⟨rfl, h₂⟩
  refine (h₂.setIfSome (by decide) hlog (by omega)).mono ?_
  rintro _ m₃ ⟨rfl, h₃⟩
  exact ⟨rfl, h₃.root.mono (by omega)⟩

theorem DtIs.bootargs {args : List UInt8} (h : DtIs m₀ m fdt total room t) (ha : args.length < 4096)
    (hr : 4136 ≤ room) :
    wp (setBootargs fdt args) (fun res m' => res = .ok () ∧
      DtIs m₀ m' fdt total (room - 4136) (t.bootargs args)) m := by
  refine wp_bind ((h.kid (by decide) (by decide : _ ≤ 16) (by omega)).mono ?_)
  rintro _ m₁ ⟨o, rfl, h₁⟩
  have hlen : (args ++ [0]).length ≤ 4096 := by
    rw [List.length_append]
    exact ha
  have hk : propRoom (ascii "bootargs") (args ++ [0]) ≤ 4120 := propRoom_le hlen
  refine (h₁.setprop (by decide) hk (by omega)).mono ?_
  rintro _ m₂ ⟨rfl, h₂⟩
  exact ⟨rfl, h₂.root.mono (by omega)⟩

theorem DtIs.initrdIfSome {ac : Nat} {initrd : Option (Nat × Nat)} (h : DtIs m₀ m fdt total room t)
    (hac : addressCells t.root = .ok ac) (he : ∀ i ∈ initrd, i.1 ≤ i.2 ∧ i.2 < 2 ^ 64)
    (hr : 109 ≤ room) :
    wp (PBoot.initrdIfSome fdt initrd) (fun res m' => res = .ok () ∧
      DtIs m₀ m' fdt total (room - 109) (t.initrdIfSome ac initrd)) m := by
  cases initrd with
  | none => exact wp_pure ⟨rfl, h.mono (Nat.sub_le _ _)⟩
  | some i =>
    obtain ⟨hse, hlt⟩ := he i rfl
    unfold PBoot.initrdIfSome Dt.initrdIfSome
    dsimp only
    by_cases heq : i.1 = i.2
    · rw [fdtInitrd, if_pos heq, if_pos heq]
      exact wp_pure ⟨rfl, h.mono (Nat.sub_le _ _)⟩
    · rw [if_neg heq]
      exact h.initrd hac (by omega) hlt hr

/-! ## `boot_finalize` -/

/-- The values that the source's arrays and words can hold. -/
structure BootSetup.Fits (b : BootSetup) : Prop where
  splash : b.splashFb < 2 ^ 64
  bootargs : b.bootargs.length < 4096
  pboot : b.pboot.Fits
  dram : 0 < b.dramSize
  initrd : ∀ i ∈ b.initrd, i.1 ≤ i.2 ∧ i.2 < 2 ^ 64

theorem DtIs.finalize {ac sc : Nat} {b : BootSetup} (h : DtIs m₀ m fdt total room t) (hfdt : 0 < fdt)
    (ht : t.WifiOk) (hb : b.Fits) (hac : addressCells t.root = .ok ac)
    (hsc : sizeCells t.root = .ok sc) (ha : ac = 1 ∨ ac = 2) (hs : sc = 1 ∨ sc = 2)
    (hr : 147860 ≤ room) :
    wp (bootFinalize fdt b) (fun res m' => res = .ok () ∧ SameOutside m₀ m' fdt total ∧
      ∃ size, size ≤ total ∧ (fdt + size) % 0x1000 = 0 ∧
        DtAt m' fdt size 64 ((t.finalize ac sc b).shrink fdt size).rsv
          ((t.finalize ac sc b).shrink fdt size).root.loc 0) m := by
  refine wp_bind ((h.wifi ht (by omega)).mono ?_)
  rintro _ m₁ ⟨rfl, h₁⟩
  refine wp_bind ((h₁.pboot hb.pboot (by omega)).mono ?_)
  rintro _ m₂ ⟨rfl, h₂⟩
  refine wp_bind ((h₂.bootargs hb.bootargs (by omega)).mono ?_)
  rintro _ m₃ ⟨rfl, h₃⟩
  have hcells := ((cellsAt_bootargs b.bootargs _).trans (cellsAt_pboot b.pboot _)).trans
    (cellsAt_wifi b.sid t)
  have hac₃ := (congrArg Prod.fst hcells).trans hac
  have hsc₃ := (congrArg Prod.snd hcells).trans hsc
  refine wp_bind ((h₃.memory hac₃ hsc₃ ha hs hb.dram (by omega)).mono ?_)
  rintro _ m₄ ⟨rfl, h₄⟩
  have hac₄ := (congrArg Prod.fst (cellsAt_memory ac sc 0x40000000 b.dramSize _)).trans hac₃
  refine wp_bind ((h₄.initrdIfSome hac₄ hb.initrd (by omega)).mono ?_)
  rintro _ m₅ ⟨rfl, h₅⟩
  refine wp_bind ((h₅.shrink hfdt (by omega)).mono ?_)
  rintro _ m₆ ⟨size, rfl, hle, hpage, hsame, htree⟩
  refine wp_pure ⟨rfl, hsame, size, hle, hpage, ?_⟩
  rw [Dt.shrink_rsv, Dt.shrink_root]
  exact htree

/-! ## The whole boot -/

/-- All edits of a boot find room, and make of the tree what their names say. -/
theorem DtIs.boot {ac sc : Nat} {b : BootSetup} (h : DtIs m₀ m fdt total room t) (hfdt : 0 < fdt)
    (hlt : total + 262144 < 2 ^ 31) (he : fdt + (total + 262144) ≤ 2 ^ 32) (hb : b.Fits)
    (ht : (t.selected b).WifiOk) (hac : addressCells t.root = .ok ac)
    (hsc : sizeCells t.root = .ok sc) (ha : ac = 1 ∨ ac = 2) (hs : sc = 1 ∨ sc = 2) :
    wp (bootSelectionFdt fdt b) (fun res m' => res = .ok () ∧
      SameOutside m₀ m' fdt (total + 262144) ∧ ∃ size, size ≤ total + 262144 ∧
        (fdt + size) % 0x1000 = 0 ∧ DtAt m' fdt size 64 ((t.boot ac sc b).shrink fdt size).rsv
          ((t.boot ac sc b).shrink fdt size).root.loc 0) m := by
  have hcells := cellsAt_selected b t
  have hsplash : room + 262016 + 112 ≤ room + 262128 := Nat.le_refl _
  have hselection : room + 261806 + 210 ≤ room + 262016 := Nat.le_refl _
  refine wp_bind ((h.prepare hlt he).mono ?_)
  rintro _ m₁ ⟨rfl, h₁⟩
  refine wp_bind ((DtIs.splash (h₁.mono hsplash) hb.splash).mono ?_)
  rintro _ m₂ ⟨rfl, h₂⟩
  refine wp_bind ((DtIs.selection (h₂.mono hselection)).mono ?_)
  rintro _ m₃ ⟨rfl, h₃⟩
  exact h₃.finalize hfdt ht hb ((congrArg Prod.fst hcells).trans hac)
    ((congrArg Prod.snd hcells).trans hsc) ha hs
    (Nat.le_trans (by decide) (Nat.le_add_left 261806 room))

end PBoot
