import GridCircuit.Proofs.Inclusion

/-!
# The cells that a document describes

A document need not have been saved by anyone: it may list a position several times or outside the sides,
give several keys to one code, several codes one name, and names under keys that are no numbers or stand
for fixed codes. The drawing made of it has the code of the last block of each cell, and a custom code
means the name under the first key for it.
-/

namespace GridCircuit

namespace Document

/-- The last block that is listed for a position. -/
def LastAt (d : Document) (p : Pos) (block : UInt32) : Prop :=
  ∃ before after, d.blocks = before ++ ⟨p, block⟩ :: after ∧ ∀ e ∈ after, e.pos ≠ p

/-- The name under the first key, in the order of the keys, that reads as a number. -/
def FirstNamed (d : Document) (number : Nat) (part : String) : Prop :=
  ∃ before key after, d.components.entries = before ++ (key, part) :: after ∧
    Decimal.parse? UInt32.size key = some number ∧
    ∀ e ∈ before, Decimal.parse? UInt32.size e.1 ≠ some number

variable {d : Document} {p : Pos} {block : UInt32} {number : Nat} {part : String}

theorem find?_of_lastAt (h : d.LastAt p block) : d.blocks.reverse.find? (·.pos = p) = some ⟨p, block⟩ := by
  obtain ⟨before, after, hblocks, hafter⟩ := h
  refine List.find?_eq_some_iff_append.2 ⟨decide_eq_true rfl, after.reverse, before.reverse, ?_, ?_⟩
  · rw [hblocks, List.reverse_append, List.reverse_cons, List.append_assoc, List.singleton_append]
  · intro e he
    rw [Bool.not_eq_true', decide_eq_false_iff_not]
    exact hafter e (List.mem_reverse.1 he)

theorem mem_customCodes_iff {e : Nat × String} : e ∈ d.customCodes ↔
    ∃ key, (key, e.2) ∈ d.components.entries ∧ Decimal.parse? UInt32.size key = some e.1 := by
  rw [customCodes, List.mem_filterMap]
  constructor
  · rintro ⟨⟨key, part⟩, hentry, hcode⟩
    obtain ⟨number, hkey, rfl⟩ := Option.map_eq_some_iff.1 hcode
    exact ⟨key, hentry, hkey⟩
  · rintro ⟨key, hentry, hkey⟩
    exact ⟨(key, e.2), hentry, Option.map_eq_some_iff.2 ⟨e.1, hkey, rfl⟩⟩

theorem find?_of_firstNamed (h : d.FirstNamed number part) :
    d.customCodes.find? (·.1 = number) = some (number, part) := by
  obtain ⟨before, key, after, hentries, hkey, hbefore⟩ := h
  rw [customCodes, hentries, List.filterMap_append, List.find?_append, List.find?_eq_none.2]
  · simp [hkey]
  · intro c hc
    obtain ⟨e, he, hc⟩ := List.mem_filterMap.1 hc
    obtain ⟨n, hn, rfl⟩ := Option.map_eq_some_iff.1 hc
    rw [decide_eq_true_iff]
    rintro rfl
    exact hbefore e he hn

end Document

theorem Registry.codeOf?_congr {φ ψ : Type} {r : Registry φ} {r' : Registry ψ} (h : r.names = r'.names)
    (name : String) : r.codeOf? name = r'.codeOf? name := by
  rw [codeOf?, codeOf?, indexOf?_eq, indexOf?_eq, h]

namespace Drawing

variable {source : String → Source Drawing} {codes : List (Nat × String)} {saved : Nat} {part : String}

theorem keys_registerAll (source : String → Source Drawing) (codes : List (Nat × String)) :
    (registerAll source codes).2.map (·.1) = codes.map (·.1) := by
  induction codes using List.reverseRecOn with
  | nil => rfl
  | append_singleton codes e ih =>
    rw [registerAll_snoc, List.map_append, List.map_append, ih]
    rfl

theorem lookup_registerAll_eq_none (source : String → Source Drawing) (h : ∀ e ∈ codes, e.1 ≠ saved) :
    (registerAll source codes).2.lookup saved = none := by
  rw [List.lookup_eq_none_iff]
  intro e he
  have hkey : e.1 ∈ codes.map (·.1) := keys_registerAll source codes ▸ List.mem_map_of_mem he
  obtain ⟨code, hcode, heq⟩ := List.mem_map.1 hkey
  rw [bne_iff_ne, ← heq]
  exact (h code hcode).symm

/-- A saved code becomes the code of the first name that is given for it. -/
theorem lookup_registerAll (source : String → Source Drawing)
    (h : codes.find? (·.1 = saved) = some (saved, part)) :
    ∃ code, (registerAll source codes).2.lookup saved = some code ∧
      (registerAll source codes).1.codeOf? part = some code := by
  induction codes using List.reverseRecOn with
  | nil => cases h
  | append_singleton codes e ih =>
    rw [registerAll_snoc, List.lookup_append]
    rw [List.find?_append] at h
    cases hfind : codes.find? (·.1 = saved) with
    | some first =>
      rw [hfind, Option.some_or] at h
      obtain ⟨code, hlookup, hcode⟩ := ih (hfind.trans h)
      refine ⟨code, by rw [hlookup, Option.some_or], ?_⟩
      exact Registry.codeOf?_of_prefix (Registry.names_prefix_register _ _ _) hcode
    | none =>
      rw [hfind, Option.none_or] at h
      obtain rfl : (saved, part) = e := List.mem_singleton.1 (List.mem_of_find?_eq_some h)
      have hnew : ∀ c ∈ codes, c.1 ≠ saved := by
        intro c hc he
        exact List.find?_eq_none.1 hfind c hc (decide_eq_true he)
      refine ⟨_, ?_, Registry.codeOf?_register _ part _⟩
      rw [lookup_registerAll_eq_none source hnew, Option.none_or]
      exact List.lookup_cons_self

theorem rename_of_fixed (renamed : List (Nat × Code)) (h : (Code.ofRaw saved).isCustom = false) :
    rename renamed saved = Code.ofRaw saved := by
  rw [rename, if_neg (Bool.eq_false_iff.1 h)]

theorem rename_of_custom (renamed : List (Nat × Code)) (h : (Code.ofRaw saved).isCustom = true) :
    rename renamed saved = (renamed.lookup saved).getD .empty := if_pos h

/-- What is on a cell is made of the last block for it. -/
theorem get_ofDocument (source : String → Source Drawing) (name : String) {d : Document} {p : Pos}
    (hsize : d.width.toNat * d.height.toNat < wordSize)
    (hp : (ofDocument source name d).grid.inBounds p = true) : (ofDocument source name d).grid.get p =
      ((d.blocks.reverse.find? (·.pos = p)).map fun e =>
        rename (registerAll source d.customCodes).2 e.block.toNat).getD .empty := by
  have hblank : (Grid.blank d.width.toNat d.height.toNat).Exact := hsize
  have hin : (Grid.blank d.width.toNat d.height.toNat).inBounds p = true := by
    rwa [ofDocument, Plane.inBounds, Plane.index?_setAll] at hp
  refine (Plane.get_setAll_inBounds hblank hin _).trans ?_
  rw [← List.map_reverse, List.find?_map, Option.map_map]
  exact congrArg (Option.getD _) (Plane.get_fill _ _ p)

end Drawing

/-- A field is what a document describes. -/
structure Document.Describes (d : Document) (name : String) (rs : Registries) (f : Field) : Prop where
  name_eq : f.name = name
  width_eq : f.grid.width = d.width.toNat
  height_eq : f.grid.height = d.height.toNat
  size_eq : f.grid.size = d.width.toNat * d.height.toNat
  unlisted : ∀ p, f.grid.inBounds p = true → (∀ e ∈ d.blocks, e.pos ≠ p) → f.grid.get p = .empty
  fixed : ∀ p block, f.grid.inBounds p = true → d.LastAt p block →
    (Code.ofRaw block.toNat).isCustom = false → f.grid.get p = Code.ofRaw block.toNat
  named : ∀ p block part, f.grid.inBounds p = true → d.LastAt p block →
    (Code.ofRaw block.toNat).isCustom = true → d.FirstNamed block.toNat part →
      (rs.get f.registry).codeOf? part = some (f.grid.get p)
  unnamed : ∀ p block, f.grid.inBounds p = true → d.LastAt p block →
    (Code.ofRaw block.toNat).isCustom = true →
      (∀ e ∈ d.components.entries, Decimal.parse? UInt32.size e.1 ≠ some block.toNat) →
        f.grid.get p = .empty
  names_eq : (rs.get f.registry).names = d.numberedNames.eraseDups
  names_nodup : (rs.get f.registry).names.Nodup

/-- A document is made into what it describes, whatever its parts are. -/
theorem Drawing.install_describes (source : String → Source Drawing) (name : String) {d : Document}
    (hsize : d.width.toNat * d.height.toNat < wordSize) (rs : Registries) :
    d.Describes name (install rs (ofDocument source name d)).1 (install rs (ofDocument source name d)).2 := by
  obtain ⟨rs', f, hinstall, hname, hgrid, hnames⟩ := install_eq rs name
    (ofDocument source name d).grid (registerAll source d.customCodes).1
  have hall : install rs (ofDocument source name d) = (rs', f) := hinstall
  have hregistered : (rs'.get f.registry).names = (registerAll source d.customCodes).1.names := hnames
  have hget : ∀ p, f.grid.inBounds p = true → f.grid.get p =
      ((d.blocks.reverse.find? (·.pos = p)).map fun e =>
        rename (registerAll source d.customCodes).2 e.block.toNat).getD .empty := by
    rw [hgrid]
    exact fun p hp => get_ofDocument source name hsize hp
  have hlast : ∀ p block, f.grid.inBounds p = true → d.LastAt p block →
      f.grid.get p = rename (registerAll source d.customCodes).2 block.toNat := by
    intro p block hp hblock
    rw [hget p hp, Document.find?_of_lastAt hblock, Option.map_some, Option.getD_some]
  have hwidth : f.grid.width = d.width.toNat := hgrid ▸ Plane.width_setAll _ _
  have hheight : f.grid.height = d.height.toNat := hgrid ▸ Plane.height_setAll _ _
  rw [hall]
  constructor
  case name_eq => exact hname
  case width_eq => exact hwidth
  case height_eq => exact hheight
  case size_eq =>
    rw [Plane.size, hwidth, hheight]
    exact cellCount_of_lt hsize
  case unlisted =>
    intro p hp hnone
    have hfind : d.blocks.reverse.find? (·.pos = p) = none :=
      List.find?_eq_none.2 fun e he hpos => hnone e (List.mem_reverse.1 he) (of_decide_eq_true hpos)
    rw [hget p hp, hfind, Option.map_none, Option.getD_none]
  case fixed =>
    intro p block hp hblock hfixed
    rw [hlast p block hp hblock, rename_of_fixed _ hfixed]
  case named =>
    intro p block part hp hblock hcustom hpart
    obtain ⟨code, hlookup, hcode⟩ := lookup_registerAll source (Document.find?_of_firstNamed hpart)
    rw [hlast p block hp hblock, rename_of_custom _ hcustom, hlookup, Option.getD_some,
      Registry.codeOf?_congr hregistered, hcode]
  case unnamed =>
    intro p block hp hblock hcustom hnone
    have hlookup : (registerAll source d.customCodes).2.lookup block.toNat = none := by
      refine lookup_registerAll_eq_none source fun e he hsaved => ?_
      obtain ⟨key, hentry, hkey⟩ := Document.mem_customCodes_iff.1 he
      exact hnone (key, e.2) hentry (hsaved ▸ hkey)
    rw [hlast p block hp hblock, rename_of_custom _ hcustom, hlookup, Option.getD_none]
  case names_eq => rw [hregistered, names_registerAll, Document.customCodes_names]
  case names_nodup =>
    rw [hregistered]
    exact nodup_names_registerAll source d.customCodes

/-- Loading any document gives the field that it describes. -/
theorem Loader.ofDocument_describes (files : FileSource) (host : ScriptHost) (l : Loader)
    (name : String) (d : Document) (rs : Registries)
    (hsize : d.width.toNat * d.height.toNat < wordSize) :
    ∃ drawing made,
      (∀ depth, files.names.length < depth →
        ofDocument files host (openDocument files host depth) name d l = some (drawing, l.add made)) ∧
      d.Describes name (drawing.install rs).1 (drawing.install rs).2 := by
  refine ⟨loadDocument files host l.stack name d, documentDrawings files host l.stack d, ?_, ?_⟩
  · exact fun depth hdepth => ofDocument_apply (opensBy_of_lt hdepth l.stack) name d rfl
  · exact Drawing.install_describes _ name hsize rs

/-- A document that nobody saved. Three keys read as the first custom code and two codes have one name,
a cell is listed twice, two blocks lie outside, and one block has no name. -/
def sampleScrawl : Document where
  width := 2
  height := 2
  blocks := [⟨⟨0, 0⟩, 15⟩, ⟨⟨5, 5⟩, 15⟩, ⟨⟨1, 0⟩, 3⟩, ⟨⟨0, 0⟩, 16⟩, ⟨⟨-1, 0⟩, 1⟩, ⟨⟨0, 1⟩, 99⟩, ⟨⟨1, 1⟩, 15⟩]
  components := .ofList
    [("15", "latch"), ("015", "lamp"), ("+15", "inverter"), ("16", "inverter"), ("3", "door"), ("x", "bell")]

theorem sampleScrawl_described : sampleScrawl.width.toNat * sampleScrawl.height.toNat < wordSize ∧
    sampleScrawl.numberedNames = ["inverter", "lamp", "latch", "inverter", "door"] ∧
    sampleScrawl.LastAt ⟨0, 0⟩ 16 ∧ sampleScrawl.FirstNamed 15 "inverter" ∧
    (loadDocument ({} : MemoryFiles).source ScriptHost.none [] "scrawl" sampleScrawl).grid.cells.toList =
      [.custom 0, .output, .empty, .custom 0] ∧
    ∃ drawing made,
      (∀ depth, ({} : MemoryFiles).source.names.length < depth →
        Loader.ofDocument ({} : MemoryFiles).source ScriptHost.none
          (Loader.openDocument ({} : MemoryFiles).source ScriptHost.none depth) "scrawl" sampleScrawl {} =
            some (drawing, ({} : Loader).add made)) ∧
      sampleScrawl.Describes "scrawl" (drawing.install {}).1 (drawing.install {}).2 := by
  have hsize : sampleScrawl.width.toNat * sampleScrawl.height.toNat < wordSize := by decide
  have hlast : sampleScrawl.LastAt ⟨0, 0⟩ 16 :=
    ⟨sampleScrawl.blocks.take 3, sampleScrawl.blocks.drop 4, rfl, by decide⟩
  have hfirst : sampleScrawl.FirstNamed 15 "inverter" :=
    ⟨[], "+15", sampleScrawl.components.entries.tail, by decide +kernel, by decide, nofun⟩
  exact ⟨hsize, by decide +kernel, hlast, hfirst, by decide +kernel,
    Loader.ofDocument_describes ({} : MemoryFiles).source ScriptHost.none {} "scrawl" sampleScrawl {} hsize⟩

end GridCircuit
