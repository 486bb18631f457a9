import Localization.Proofs.Format.DistinctSites
import Localization.Proofs.Format.Nesting

/-!
# Patterns of a single text

A pattern of a single text is resolved to its text at once, without being visited. Visiting it like
any other pattern would change nothing. While it is visited no other pattern is entered, so it is
never met again, and that needs sites to tell patterns apart: otherwise some other pattern at the
same site might be on the way. Its text stands alone and in no placeable, so it is neither isolated
nor cut.

## Main definitions

* `Resolver.guarded` — resolving where every pattern is visited
* `Environment.Enterable` — the patterns that formatting can enter

## Main statements

* `Environment.Enterable.unique` — at one site only one pattern can be entered
* `Resolver.pattern_alike_guarded` — whether single texts are visited makes no difference
* `Environment.format_guarded` — formatting gives what it gives where every pattern is visited
-/

namespace Localization

/-! ### Patterns that can be entered -/

namespace Environment

variable {env : Environment} {start content content' : Pattern} {origin site : Site}

/-- A pattern that formatting can enter: one of the store, or one in the pattern that it starts
with. -/
def Enterable (env : Environment) (start : Pattern) (origin : Site) (content : Pattern)
    (site : Site) : Prop :=
  env.store.Stands content site ∨ (content, site) ∈ start.located origin

theorem enterable_start (env : Environment) (start : Pattern) (origin : Site) :
    env.Enterable start origin start origin := .inr (start.mem_located_self origin)

theorem Enterable.nested (h : env.Enterable start origin content site) {inner : Pattern × Site}
    (hinner : inner ∈ content.located site) : env.Enterable start origin inner.1 inner.2 := by
  rcases h with hstands | hmem
  · exact .inl (hstands.nested hinner)
  · exact .inr ((start.inside origin _ hmem).located hinner)

theorem Enterable.mem_sites (h : env.Enterable start origin content site) :
    site ∈ env.sites start origin := by
  obtain ⟨hstore, hstart⟩ := env.located_subset_sites start origin
  rcases h with hstands | hmem
  · exact hstore (List.mem_map_of_mem (hstands.located_subset (content.mem_located_self site)))
  · exact hstart (List.mem_map_of_mem hmem)

/-- At one site only one pattern can be entered. -/
theorem Enterable.unique (h : env.Enterable start origin content site)
    (horigin : origin.root = .loose ∨ env.store.Stands start origin)
    (h' : env.Enterable start origin content' site) : content = content' := by
  -- a start outside of the store shares no site with it, and all of another start is in the store
  have hcross : ∀ {first second : Pattern}, env.store.Stands first site →
      (second, site) ∈ start.located origin → first = second := by
    intro first second hstands hmem
    rcases horigin with hloose | hstart
    · exact absurd ((start.inside origin _ hmem).root.trans hloose) hstands.ne_loose
    · exact hstands.unique (hstart.nested hmem)
  rcases h with hstands | hmem <;> rcases h' with hstands' | hmem'
  · exact hstands.unique hstands'
  · exact hcross hstands hmem'
  · exact (hcross hstands' hmem).symm
  · exact (start.apart origin).eq_of_mem hmem hmem'

end Environment

/-! ### Resolving where every pattern is visited -/

namespace Resolver

variable {env : Environment} {f : Enter} {start content : Pattern} {origin site : Site}
  {chain : List Site}

/-- The value of the pattern at a site, where a pattern of a single text counts as visited as any
other pattern does, with room for a number of nested patterns. -/
def guarded (env : Environment) (room : Nat) (content : Pattern) (site : Site) :
    Resolver Value := do
  if site ∈ (← get).visiting then cyclic
  else
    match room with
    | 0 => cyclic
    | room + 1 => visit env (guarded env room) content site

/-- The element of a pattern of a single text makes up that text. -/
theorem joined_of_simpleText? {text : String} (h : content.simpleText? = some text) :
    joined env f content site = pure (.string text) := by
  obtain ⟨span, helements⟩ := Pattern.elements_of_simpleText? h
  unfold joined
  rw [helements]
  simp only [elements, pure_bind, List.append_nil, String.ofList_toList]

/-- The patterns that are being resolved: all at different sites, and none of them of a single
text. -/
structure Entered (env : Environment) (start : Pattern) (origin : Site) (chain : List Site) : Prop
    extends Chain (env.sites start origin) chain where
  tracked : ∀ entered ∈ chain, ∃ content, env.Enterable start origin content entered ∧
    content.simpleText? = none

theorem Entered.nil (env : Environment) (start : Pattern) (origin : Site) :
    Entered env start origin [] := ⟨.nil _, nofun⟩

theorem Entered.cons (h : Entered env start origin chain) (hsite : site ∉ chain)
    (hcontent : env.Enterable start origin content site) (htext : content.simpleText? = none) :
    Entered env start origin (site :: chain) :=
  ⟨h.toChain.cons hsite hcontent.mem_sites,
    List.forall_mem_cons.2 ⟨⟨content, hcontent, htext⟩, h.tracked⟩⟩

/-- A pattern of a single text is never met while it is being resolved. -/
theorem Entered.not_mem_of_simpleText? (h : Entered env start origin chain)
    (horigin : origin.root = .loose ∨ env.store.Stands start origin)
    (hcontent : env.Enterable start origin content site) {text : String}
    (htext : content.simpleText? = some text) : site ∉ chain := by
  intro hmem
  obtain ⟨entered, hentered, hnone⟩ := h.tracked site hmem
  rw [hentered.unique horigin hcontent, htext] at hnone
  cases hnone

/-- Whether patterns of a single text are visited makes no difference, as long as there is room for
all sites. -/
theorem pattern_alike_guarded
    (horigin : origin.root = .loose ∨ env.store.Stands start origin) :
    ∀ (room room' : Nat) (chain : List Site) (content : Pattern) (site : Site),
      Entered env start origin chain → env.Enterable start origin content site →
      (env.sites start origin).length ≤ room + chain.length →
      (env.sites start origin).length ≤ room' + chain.length →
      Alike (fun _ => True) chain chain (pattern env room content site)
        (guarded env room' content site) := by
  intro room
  -- both sides visit the same sites whenever a pattern that is not a single text is entered
  induction room using Nat.strongRecOn with
  | ind room ih =>
    intro room' chain content site hchain hcontent hroom hroom'
    rw [pattern.eq_def, guarded.eq_def]
    cases htext : content.simpleText? with
    | some text =>
      -- only the guarded side enters a single text, which is not being resolved already
      have hsite := hchain.not_mem_of_simpleText? horigin hcontent htext
      obtain ⟨room', rfl, -⟩ := (hchain.toChain.cons hsite hcontent.mem_sites).exists_succ hroom'
      refine .ask_right hsite (.visit_right ?_)
      rw [joined_of_simpleText? htext]
      exact .pure _
    | none =>
      by_cases hsite : site ∈ chain
      · exact .ask_seen hsite hsite ((Alike.report trivial).bind fun _ => .pure _)
      · have hchain' := hchain.cons hsite hcontent htext
        obtain ⟨room, rfl, hless⟩ := hchain'.toChain.exists_succ hroom
        obtain ⟨room', rfl, hless'⟩ := hchain'.toChain.exists_succ hroom'
        refine .ask_left hsite (.ask_right hsite (.visit_left (.visit_right ?_)))
        refine joined_alike (reports_true env) (pattern_tidy room)
          ⟨fun inner hinner => ?_, fun content' site' _ hstands => ?_⟩
        · have hnested := located_subset_of_elements hinner (inner.1.mem_located_self inner.2)
          exact ih room (Nat.lt_succ_self room) room' _ _ _ hchain' (hcontent.nested hnested)
            hless hless'
        · exact ih room (Nat.lt_succ_self room) room' _ _ _ hchain' (.inl hstands) hless hless'

end Resolver

/-! ### Formatting -/

namespace Environment

variable (env : Environment) (room : Nat)

/-- The text of the pattern at a site, resolved where every pattern is visited. -/
def formatGuarded (content : Pattern) (site : Site) : Resolver String := do
  return (← Resolver.guarded env room content site).format

/-- The text of the value of a message, resolved where every pattern is visited. -/
def formatMessageGuarded (message : Message) (root : Root) : Resolver String := do
  match message.value with
  | some pattern => env.formatGuarded room pattern (.value root)
  | none =>
    Resolver.report (.noValue message.id.name)
    return ""

variable {env room}

theorem run_formatGuarded {content : Pattern} {site : Site}
    (hsite : site.root = .loose ∨ env.store.Stands content site)
    (hroom : env.store.patternCount + content.patternCount ≤ room) :
    Resolver.run (env.formatGuarded room content site) =
      Resolver.run (env.formatPattern content site) := by
  have hcount := env.length_sites_le content site
  refine (Resolver.Alike.run_eq (P := fun _ => True) (Resolver.Alike.bind ?_ fun _ => .pure _)).symm
  exact Resolver.pattern_alike_guarded hsite _ room [] content site (.nil env content site)
    (env.enterable_start content site) hcount (Nat.le_trans hcount hroom)

theorem run_formatMessageGuarded {message : Message} {root : Root}
    (hroot : root = .loose ∨ env.store.find? root = some message)
    (hroom : env.store.patternCount + message.patternCount ≤ room) :
    Resolver.run (env.formatMessageGuarded room message root) =
      Resolver.run (env.formatMessage message root) := by
  unfold formatMessageGuarded formatMessage
  cases hvalue : message.value with
  | none => rfl
  | some content =>
    have hcount : content.patternCount ≤ message.patternCount := by
      unfold Message.patternCount
      rw [hvalue]
      exact Nat.le_add_right _ _
    refine run_formatGuarded (hroot.imp_right fun hfind => ?_)
      (Nat.le_trans (Nat.add_le_add_left hcount _) hroom)
    exact Store.stands_of_mem hfind (Message.value_mem_located hvalue)

variable (env room)

/-- Formatting a pattern or a message gives the text and the errors that it gives where patterns of
a single text are visited as well, with as much room as there are patterns or more. The start is
outside of the store, or it stands where its site says. -/
theorem format_guarded :
    (∀ content site, site.root = .loose ∨ env.store.Stands content site →
      env.store.patternCount + content.patternCount ≤ room →
      Resolver.run (env.formatPattern content site) =
        Resolver.run (env.formatGuarded room content site)) ∧
    ∀ message root, root = .loose ∨ env.store.find? root = some message →
      env.store.patternCount + message.patternCount ≤ room →
      Resolver.run (env.formatMessage message root) =
        Resolver.run (env.formatMessageGuarded room message root) := by
  constructor
  · intro content site hsite hroom
    exact (run_formatGuarded hsite hroom).symm
  · intro message root hroot hroom
    exact (run_formatMessageGuarded hroot hroom).symm

/-- A message that refers to itself and, twice, to a message of a single text. -/
theorem format_guarded_cyclic :
    ∃ (env : Environment) (message : Message),
      env.store.find? (.message "a") = some message ∧
      env.store.patternCount + message.patternCount ≤ 3 ∧
      Resolver.run (env.formatMessageGuarded 3 message (.message "a")) = ("???BB", [.cyclic]) := by
  let single : Message := ⟨⟨"b", ⟨0, 1⟩⟩, some ⟨[.text "B" ⟨4, 5⟩], ⟨4, 5⟩⟩, [], none, ⟨0, 5⟩⟩
  let reference (name : String) : PatternElement :=
    .placeable (.messageReference ⟨name, default⟩) default
  let message : Message :=
    ⟨⟨"a", ⟨6, 7⟩⟩, some ⟨[reference "a", reference "b", reference "b"], default⟩, [], none,
      default⟩
  let env : Environment :=
    ⟨⟨.ofList [("b", single), ("a", message)], .empty, .empty⟩, none, ⟨[], .default⟩, ⟨false, 9⟩⟩
  refine ⟨env, message, rfl, by decide +kernel, ?_⟩
  rw [← (env.format_guarded 3).2 message (.message "a") (.inr rfl) (by decide +kernel)]
  decide +kernel

end Environment

end Localization
