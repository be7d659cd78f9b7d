import GridCircuit.Proofs.Accesses
import GridCircuit.Proofs.SaveOpen

/-!
# Sides that are read from texts

The sides of a drawing come from a text as words. If their product is a word, there is a cell for each
position inside, and the text is drawn, labelled and built without looking for a cell where there is none.
If it is not, a program that checks its arithmetic stops; one that does not has fewer cells than the sides
say, and the test for positions, which goes by the sides, lets positions through that have no cell.
-/

namespace GridCircuit

namespace Drawing

mutual

/-- Opening an exact drawing leaves nothing but exact grids in the registries. -/
theorem exact_install {rs : Registries} (hr : rs.Exact) :
    ∀ {drawing : Drawing}, drawing.isExact = true →
      (install rs drawing).1.Exact ∧ (install rs drawing).2.grid.Exact
  | ⟨name, grid, ⟨entries⟩⟩, h => by
    rw [isExact, Bool.and_eq_true, decide_eq_true_eq] at h
    obtain ⟨hrs, hentries⟩ := exact_installEntries hr h.2
    rw [install]
    refine ⟨fun r hmem e he inner hinner => ?_, h.1⟩
    obtain hmem | rfl := Array.mem_push.1 hmem
    · exact hrs r hmem e he inner hinner
    · exact hentries e he inner hinner

theorem exact_installEntries {rs : Registries} (hr : rs.Exact) :
    ∀ {entries : List (Entry Drawing)}, areExact entries = true →
      (installEntries rs entries).1.Exact ∧ ∀ e ∈ (installEntries rs entries).2, ∀ inner,
        e.source = .circuit inner → inner.grid.Exact
  | [], _ => by
    rw [installEntries]
    exact ⟨hr, nofun⟩
  | ⟨name, source⟩ :: rest, h => by
    rw [areExact, Bool.and_eq_true] at h
    obtain ⟨hrs, hsource⟩ := exact_installSource hr h.1
    obtain ⟨hrs', hrest⟩ := exact_installEntries hrs h.2
    rw [installEntries]
    refine ⟨hrs', fun e he inner hinner => ?_⟩
    obtain rfl | he := List.mem_cons.1 he
    · exact hsource inner hinner
    · exact hrest e he inner hinner

theorem exact_installSource {rs : Registries} (hr : rs.Exact) :
    ∀ {source : Source Drawing}, isExactSource source = true →
      (installSource rs source).1.Exact ∧ ∀ inner, (installSource rs source).2 = .circuit inner →
        inner.grid.Exact
  | .script script, _ => by
    rw [installSource]
    exact ⟨hr, nofun⟩
  | .circuit drawing, h => by
    rw [isExactSource] at h
    obtain ⟨hrs, hgrid⟩ := exact_install hr h
    rw [installSource]
    refine ⟨hrs, ?_⟩
    rintro _ ⟨⟩
    exact hgrid
  | .unresolved reason, _ => by
    rw [installSource]
    exact ⟨hr, nofun⟩

end

end Drawing

variable {files : FileSource} {host : ScriptHost} {chain : List String} {name : String} {d : Document}

end GridCircuit
