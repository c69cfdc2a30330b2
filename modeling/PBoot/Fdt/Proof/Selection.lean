import PBoot.Fdt.Proof.Device

/-!
# The device tree up to `boot_finalize`

What `boot_prepare` and `boot_selection` make of a device tree, whatever it holds: every lookup
follows a path in the tree as it is by then, and an edit of a node that is not there does nothing.
`bootSelection_tree` is all edits in order.
-/

namespace PBoot

open Bytes Progs Trees

variable {m₀ m : Mem} {fdt total room k : Nat} {t : Dt} {name val path : List UInt8}

/-- Memory holds a device tree, and is what it was at `m₀` outside the blob. -/
abbrev DtIs (m₀ m : Mem) (fdt total room : Nat) (t : Dt) : Prop :=
  DtSince m₀ m fdt total room t.rsv t.root.loc 0

/-- **An edit at a path**, of the node that is there. -/
theorem DtIs.atPath {f : Nat → FdtM Unit} {g : DtLoc → DtNode} {room' : Nat}
    (h : DtIs m₀ m fdt total room t) (hp : path.head? = some 47) (hp0 : 0 ∉ path)
    (hr : room' ≤ room) (hf : ∀ z o, t.root.at path = some z →
      DtSince m₀ m fdt total room t.rsv z o →
        wp (f o) (fun _ m' => DtIs m₀ m' fdt total room' { t with root := g z }) m) :
    wp (PBoot.atPath fdt path f) (fun res m' => res = .ok () ∧
      DtIs m₀ m' fdt total room' (t.atPath path g)) m := by
  unfold PBoot.atPath Dt.atPath
  cases hz : t.root.at path with
  | none =>
    have hnone := h.tree.path_none hp0 hp hz
    exact wp_bind (wp_attempt (wp_reads hnone (wp_pure ⟨rfl, h.mono hr⟩)))
  | some z =>
    obtain ⟨o, ho, htree⟩ := h.tree.path_some hp0 hp hz
    refine wp_bind (wp_attempt (wp_reads ho ?_))
    exact wp_bind (wp_attempt ((hf z o hz ⟨h.same, htree⟩).mono fun _ _ hm => wp_pure ⟨rfl, hm⟩))

theorem DtIs.setAt (h : DtIs m₀ m fdt total room t) (hp : path.head? = some 47) (hp0 : 0 ∉ path)
    (h0 : 0 ∉ name) (hk : propRoom name val ≤ k) (hr : k ≤ room) :
    wp (PBoot.atPath fdt path fun node => fdtSetprop fdt node name val) (fun res m' =>
      res = .ok () ∧ DtIs m₀ m' fdt total (room - k)
        (t.atPath path fun z => (z.set name val).top)) m :=
  h.atPath hp hp0 (Nat.sub_le _ _) fun _ _ _ hz =>
    (hz.setprop h0 hk hr).mono fun _ _ ⟨_, h'⟩ => h'.root

/-! ## `boot_selection` -/

/-- **The loop over `priv_nodes`.** -/
theorem DtIs.disableAll {paths : List (List UInt8)}
    (hpaths : ∀ path ∈ paths, path.head? = some 47 ∧ 0 ∉ path)
    (h : DtIs m₀ m fdt total (room + 31 * paths.length) t) :
    wp (each (fdtPathDisable fdt) paths) (fun res m' => res = .ok () ∧
      DtIs m₀ m' fdt total room (paths.foldl Dt.disable t)) m := by
  refine (wp_each (g := Dt.disable) (I := fun paths t m => (∀ path ∈ paths, path.head? = some 47 ∧ 0 ∉ path) ∧
    DtIs m₀ m fdt total (room + 31 * paths.length) t) ?_ ⟨hpaths, h⟩).mono ?_
  · rintro path paths t m ⟨hpaths, h⟩
    obtain ⟨hp, hp0⟩ := hpaths path List.mem_cons_self
    refine (h.setAt hp hp0 (by decide) (by decide : _ ≤ 31) ?_).mono ?_
    · rw [List.length_cons]
      omega
    · rintro res m' ⟨hres, h'⟩
      refine ⟨hres, fun p hmem => hpaths p (List.mem_cons_of_mem _ hmem), h'.mono ?_⟩
      rw [List.length_cons]
      omega
  · rintro res m' ⟨hres, -, h'⟩
    exact ⟨hres, h'⟩

theorem DtIs.privacy (h : DtIs m₀ m fdt total (room + 210) t) :
    wp (fdtPrivacy fdt) (fun res m' => res = .ok () ∧ DtIs m₀ m' fdt total room t.privacy) m := by
  have hall : DtIs m₀ m fdt total (room + 24 + 31 * privNodes.length) t := h
  refine wp_bind ((hall.disableAll (by decide)).mono ?_)
  rintro _ m₁ ⟨rfl, h₁⟩
  exact h₁.setAt (by decide) (by decide) (by decide) (by decide : _ ≤ 24) (Nat.le_add_left _ _)

theorem DtIs.modemManager (h : DtIs m₀ m fdt total (room + 32) t) :
    wp (fdtModemManager fdt) (fun res m' => res = .ok () ∧
      DtIs m₀ m' fdt total room t.modemManager) m := by
  have hdel : wp (PBoot.atPath fdt modemPath (fdtDelNode fdt)) (fun res m' => res = .ok () ∧
      DtIs m₀ m' fdt total (room + 32) (t.atPath modemPath Loc.remove)) m := by
    refine h.atPath (by decide) (by decide) (Nat.le_refl _) fun z o hz hat => ?_
    obtain ⟨q, path, hpath⟩ := List.exists_cons_of_ne_nil
      (by decide : (segments modemPath).map nameMatches ≠ [])
    rw [DtNode.at, hpath] at hz
    refine (hat.delNode (Loc.ctx_find hz)).mono ?_
    rintro res m' ⟨-, h'⟩
    exact h'
  refine wp_bind (hdel.mono ?_)
  rintro _ m₁ ⟨rfl, h₁⟩
  exact h₁.setAt (by decide) (by decide) (by decide) (by decide : _ ≤ 32) (Nat.le_add_left _ _)

theorem DtIs.selection {privacy : Bool} {bootargs : List UInt8}
    (h : DtIs m₀ m fdt total (room + 210) t) :
    wp (fdtSelectionEdits fdt privacy bootargs) (fun res m' => res = .ok () ∧
      DtIs m₀ m' fdt total room (t.selection privacy bootargs)) m := by
  have hadc : wp (PBoot.atPath fdt adcPath fun node =>
      fdtDelprop fdt node (ascii "x-powers,ts-as-gpadc")) (fun res m' => res = .ok () ∧
        DtIs m₀ m' fdt total (room + 210)
          (t.atPath adcPath fun z => (z.del (ascii "x-powers,ts-as-gpadc")).top)) m :=
    h.atPath (by decide) (by decide) (Nat.le_refl _) fun _ _ _ hz =>
      (hz.delprop (by decide)).mono fun _ _ h' => h'.root
  refine wp_bind (hadc.mono ?_)
  rintro _ m₁ ⟨rfl, h₁⟩
  unfold Dt.selection
  dsimp only
  by_cases hp : privacy = true
  · rw [if_pos hp, if_pos hp]
    exact h₁.privacy
  rw [if_neg hp, if_neg hp]
  split
  · exact DtIs.modemManager (h₁.mono (by omega))
  · exact wp_pure ⟨rfl, h₁.mono (Nat.le_add_right _ _)⟩

/-! ## The framebuffer and `boot_prepare` -/

theorem DtIs.framebuffer {fbAddr : Nat} (h : DtIs m₀ m fdt total (room + 112) t)
    (hfb : fbAddr < 2 ^ 64) :
    wp (fdtSetupFramebuffer fdt fbAddr) (fun res m' => res = .ok () ∧
      DtIs m₀ m' fdt total room (t.framebuffer fbAddr)) m := by
  have hsize : 39 ≤ room + 112 - 16 ∧ 41 ≤ room + 112 - 16 - 39 := by omega
  have hfb' : propRoom (ascii "p-boot,framebuffer") (be32 fbAddr ++ be32 framebufferSize) ≤ 39 := by
    rw [propRoom, List.length_append, length_be32, length_be32]
    decide
  have hstart : propRoom (ascii "p-boot,framebuffer-start") (be32 fbAddr) ≤ 41 := by
    rw [propRoom, length_be32]
    decide
  refine wp_bind ((h.kid (by decide) (by decide : _ ≤ 16) (by omega)).mono ?_)
  rintro _ m₁ ⟨o, rfl, h₁⟩
  refine wp_bind ((h₁.setprop (by decide) hfb' hsize.1).mono ?_)
  rintro _ m₂ ⟨rfl, h₂⟩
  refine wp_bind ((h₂.setprop (by decide) hstart hsize.2).mono ?_)
  rintro _ m₃ ⟨rfl, h₃⟩
  have hfits : rsvFits (fbAddr, framebufferSize) := ⟨hfb, (by decide : 0 < framebufferSize),
    (by decide : framebufferSize < 2 ^ 64)⟩
  refine (h₃.addMemRsv hfits (by omega)).mono ?_
  rintro _ m₄ ⟨rfl, h₄⟩
  exact ⟨rfl, h₄.root.mono (by omega)⟩

theorem DtIs.splash {splashFb : Nat} (h : DtIs m₀ m fdt total (room + 112) t)
    (hfb : splashFb < 2 ^ 64) :
    wp (setupSplash fdt splashFb) (fun res m' => res = .ok () ∧
      DtIs m₀ m' fdt total room (t.splash splashFb)) m := by
  unfold setupSplash Dt.splash
  split
  · exact wp_pure ⟨rfl, h.mono (Nat.le_add_right _ _)⟩
  · refine wp_bind (wp_attempt ((h.framebuffer hfb).mono ?_))
    rintro res m' ⟨-, h'⟩
    exact wp_pure ⟨rfl, h'⟩

theorem DtIs.prepare (h : DtIs m₀ m fdt total room t) (hlt : total + 262144 < 2 ^ 31)
    (he : fdt + (total + 262144) ≤ 2 ^ 32) :
    wp (bootPrepareFdt fdt) (fun res m' => res = .ok () ∧
      DtIs m₀ m' fdt (total + 262144) (room + 262128) t.prepare) m := by
  have hroom : room + 262128 ≤ room + 262144 - 16 := by
    clear hlt he h
    omega
  refine wp_bind ((h.increaseSize hlt he).mono ?_)
  rintro _ m₁ ⟨rfl, hsame, htree⟩
  have h₁ : DtIs m₀ m₁ fdt (total + 262144) (room + 262144) t :=
    ⟨hsame.mono (Nat.le_refl _) (by omega), htree⟩
  refine wp_bind ((h₁.kid (by decide) (by decide : _ ≤ 16) (by omega)).mono ?_)
  rintro _ m₂ ⟨o, rfl, h₂⟩
  exact wp_pure ⟨rfl, h₂.root.mono hroom⟩

/-- **The device tree that `boot_finalize` gets**, for any tree that was loaded, with or without a
splash screen, privacy and eg25-manager: all edits of `boot_prepare` and `boot_selection` find room,
and make of the tree what their names say. -/
theorem bootSelection_tree {m : Mem} {splashFb : Nat} {privacy : Bool} {bootargs : List UInt8}
    (h : DtAt m fdt total room t.rsv t.root.loc 0) (hlt : total + 262144 < 2 ^ 31)
    (he : fdt + (total + 262144) ≤ 2 ^ 32) (hfb : splashFb < 2 ^ 64) :
    wp (do
      bootPrepareFdt fdt
      setupSplash fdt splashFb
      fdtSelectionEdits fdt privacy bootargs) (fun res m' => res = .ok () ∧
        SameOutside m m' fdt (total + 262144) ∧
        DtAt m' fdt (total + 262144) (room + 261806)
          ((t.prepare.splash splashFb).selection privacy bootargs).rsv
          ((t.prepare.splash splashFb).selection privacy bootargs).root.loc 0) m := by
  have h₀ : DtIs m m fdt total room t := ⟨SameOutside.rfl, h⟩
  have hsplash : room + 262016 + 112 ≤ room + 262128 := Nat.le_refl _
  have hselection : room + 261806 + 210 ≤ room + 262016 := Nat.le_refl _
  refine wp_bind ((h₀.prepare hlt he).mono ?_)
  rintro _ m₁ ⟨rfl, h₁⟩
  refine wp_bind ((DtIs.splash (h₁.mono hsplash) hfb).mono ?_)
  rintro _ m₂ ⟨rfl, h₂⟩
  refine (DtIs.selection (h₂.mono hselection)).mono ?_
  rintro res m₃ ⟨hres, h₃⟩
  exact ⟨hres, h₃.same, h₃.tree⟩

/-- The small tree with a splash screen and privacy. -/
def smallSelected : DtNode where
  name := []
  props := smallTree.root.props
  kids :=
    .node (ascii "chosen") [some (ascii "p-boot,framebuffer-start", be32 0x48000000),
      some (ascii "p-boot,framebuffer", be32 0x48000000 ++ be32 framebufferSize)] [] ::
    .node [98] [] [] ::
    .node (ascii "sound") [some (ascii "status", ascii "disabled" ++ [0])] [] ::
    smallKids.tail

theorem bootSelection_tree_small : wp (do
    bootPrepareFdt 64
    setupSplash 64 0x48000000
    fdtSelectionEdits 64 true (ascii "quiet")) (fun res m' => res = .ok () ∧
      DtAt m' 64 266769 266206 [(0x48000000, framebufferSize)] smallSelected.loc 0) smallMem := by
  refine (bootSelection_tree smallTree_at (by decide) (by decide) (by decide)).mono ?_
  rintro res m' ⟨hres, -, htree⟩
  exact ⟨hres, htree⟩

end PBoot
