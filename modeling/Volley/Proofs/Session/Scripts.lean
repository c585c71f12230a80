import Volley.Proofs.Session.Acts

/-!
# Where the scripts of a session come from

A session brings in no scripts of its own. Whatever is true of the scripts that it holds and of
those that a host brings in stays true of all that it ever holds.
-/

namespace Volley.Session

variable {V : Type} {P : ScriptBook → Prop} {before after : Session}
  {effects : List (SessionEffect V)}

/-- The scripts that an act brings in. -/
def Act.books : Act V → List ScriptBook
  | .setBook book => [book]
  | .world act => act.books
  | _ => []

/-- All scripts of a session are of a kind: those of its bullets, those of the
moment and those of its programs. -/
structure Carries (P : ScriptBook → Prop) (session : Session) : Prop where
  world : ∀ shot ∈ session.world.shots, P shot.book
  book : P session.book
  programs : ∀ blueprint compiled, session.programs.find? blueprint = some compiled → P compiled.2

theorem Carries.program (hcarries : before.Carries P) (blueprintId : UInt32)
    (blueprint : Blueprint) :
    P (before.program blueprintId blueprint).2 := by
  rw [Session.program]
  split
  · rename_i compiled hcompiled
    exact hcarries.programs blueprintId compiled hcompiled
  · exact hcarries.book

theorem Carries.retouches (hcarries : before.Carries P)
    (hretouches : Retouches before after) : after.Carries P where
  world shot hshot := by
    have hbook : shot.book ∈ after.world.shots.map Shot.book := List.mem_map_of_mem hshot
    rw [hretouches.books] at hbook
    obtain ⟨old, hold, hsame⟩ := List.mem_map.mp hbook
    rw [← hsame]
    exact hcarries.world old hold
  book := hretouches.book ▸ hcarries.book
  programs := hretouches.programs ▸ hcarries.programs

theorem Carries.deed {act : Act V} (hcarries : before.Carries P) (hact : ∀ book ∈ act.books, P book)
    (hdeed : Deed before act after effects) : after.Carries P := by
  cases hdeed with
  | kept hframe hkeeps hworld hbinder hbook hprograms =>
      refine ⟨hworld ▸ hcarries.world, ?_, fun blueprint compiled hcompiled => ?_⟩
      · rcases hbook with hsame | rfl
        · exact hsame ▸ hcarries.book
        · exact hact after.book List.mem_cons_self
      · rcases hprograms with hsame | hempty
        · exact hcarries.programs blueprint compiled (hsame ▸ hcompiled)
        · rw [hempty] at hcompiled
          cases hcompiled
  | cleared hclears hworld hdistinct hbinder hbook hprograms =>
      refine ⟨?_, hbook ▸ hcarries.book, hprograms ▸ hcarries.programs⟩
      rw [hworld]
      exact List.forall_mem_nil _
  | @fired hosts id blueprintId blueprint hblueprint faction position told =>
      have hprogram := hcarries.program blueprintId blueprint
      have hspawned := World.inherits_spawnShot before.world hosts
        (before.shot id blueprintId blueprint faction position)
      refine ⟨hspawned.forall_book (List.forall_mem_singleton.mpr hprogram) hcarries.world,
        hcarries.book, ?_⟩
      intro other compiled hcompiled
      rw [Table.find?_insert] at hcompiled
      split at hcompiled
      · cases hcompiled
        exact hprogram
      · exact hcarries.programs other compiled hcompiled
  | acted hdeed told =>
      exact ⟨hdeed.inherits.forall_book hact hcarries.world, hcarries.book, hcarries.programs⟩
  | @rendered hrunning outside now delta count stepped first hstep clock told =>
      have hstepped := (World.inherits_step? hstep).forall_book
        (List.forall_mem_nil _) hcarries.world
      have hticked : (before.ticked stepped clock now).Carries P :=
        ⟨hstepped, hcarries.book, hcarries.programs⟩
      exact hticked.retouches (render_retouches outside _)

theorem Deed.gameplay {act : Act V} (hdeed : Deed before act after effects) :
    after.world.gameplay = before.world.gameplay := by
  cases hdeed with
  | kept hframe hkeeps hworld hbinder hbook hprograms => rw [hworld]
  | cleared hclears hworld hdistinct hbinder hbook hprograms =>
      rw [hworld]
      rfl
  | fired hosts id hblueprint faction position told =>
      exact (World.inherits_spawnShot before.world hosts _).gameplay
  | acted hdeed told => exact hdeed.inherits.gameplay
  | rendered hrunning hstep clock told =>
      exact (render_retouches _ _).gameplay.trans (World.inherits_step? hstep).gameplay

end Volley.Session
