import Localization.Proofs.Format.Alike
import Mathlib.Data.List.Perm.Subperm

/-!
# How deep patterns nest

A pattern that is being resolved is not entered again, and there are only so many sites that a
pattern can stand at. So the patterns that are entered within one another are all different, there
are no more of them than there are patterns, and resolving always ends.

## Main definitions

* `Resolver.traced` — resolving with a limited number of nested patterns and the chain of them
* `Environment.sites` — the sites of all patterns that can be entered

## Main statements

* `Resolver.pattern_alike_traced` — no chain of patterns goes over the limit or enters one twice
* `Environment.format_nesting` — formatting enters no more nested patterns than there are
-/

namespace Localization

namespace Resolver

variable {P : ResolveError → Prop} {V W : List Site} {α : Type}

/-! ### Visiting a pattern -/

variable {env : Environment} {f g : Enter} {content : Pattern} {site : Site}

theorem Alike.visit_left {y : Resolver Value}
    (h : Alike P (site :: V) W (joined env f content site) y) :
    Alike P V W (visit env f content site) y := by
  rw [visit_eq]
  exact alike_iff_follows.2 (.within_left (alike_iff_follows.1 h))

theorem Alike.visit_right {x : Resolver Value}
    (h : Alike P V (site :: W) x (joined env g content site)) :
    Alike P V W x (visit env g content site) := by
  rw [visit_eq]
  exact alike_iff_follows.2 (.within_right (alike_iff_follows.1 h))

/-- Asking whether a site is visited, where it is not. -/
theorem Alike.ask_left {seen unseen y : Resolver Value} (hsite : site ∉ V)
    (h : Alike P V W unseen y) :
    Alike P V W (do if site ∈ (← get).visiting then seen else unseen) y := by
  intro errors
  obtain ⟨result, recorded, hrecorded, hx, hy⟩ := h errors
  exact ⟨result, recorded, hrecorded, (run_ask_of_not_mem hsite errors).trans hx, hy⟩

theorem Alike.ask_right {seen unseen x : Resolver Value} (hsite : site ∉ W)
    (h : Alike P V W x unseen) :
    Alike P V W x (do if site ∈ (← get).visiting then seen else unseen) := by
  intro errors
  obtain ⟨result, recorded, hrecorded, hx, hy⟩ := h errors
  exact ⟨result, recorded, hrecorded, hx, (run_ask_of_not_mem hsite errors).trans hy⟩

/-- Asking whether a site is visited, where it is. -/
theorem Alike.ask_seen {seen unseen unseen' : Resolver Value} (hV : site ∈ V) (hW : site ∈ W)
    (h : Alike P V W seen seen) :
    Alike P V W (do if site ∈ (← get).visiting then seen else unseen)
      (do if site ∈ (← get).visiting then seen else unseen') := by
  intro errors
  obtain ⟨result, recorded, hrecorded, hx, hy⟩ := h errors
  exact ⟨result, recorded, hrecorded, (run_ask_of_mem hV errors).trans hx,
    (run_ask_of_mem hW errors).trans hy⟩

/-! ### Chains of patterns -/

/-- Resolving patterns with the chain of patterns that are entered within one another, the
innermost first, up to a number of them. A pattern that is entered twice, or over that number,
raises the alarm. -/
def traced (env : Environment) (alarm : List Site → Enter) (depth : Nat) (chain : List Site)
    (content : Pattern) (site : Site) : Resolver Value :=
  match content.simpleText? with
  | some text => return .string text
  | none => do
    if site ∈ (← get).visiting then cyclic
    else
      match depth with
      | 0 => alarm chain content site
      | depth + 1 =>
        if site ∈ chain then alarm chain content site
        else visit env (traced env alarm depth (site :: chain)) content site

/-- A chain of different sites among all that there are. -/
structure Chain (sites chain : List Site) : Prop where
  nodup : chain.Nodup
  subset : chain ⊆ sites

theorem Chain.nil (sites : List Site) : Chain sites [] := ⟨.nil, List.nil_subset _⟩

theorem Chain.cons {sites chain : List Site} (h : Chain sites chain) (hsite : site ∉ chain)
    (hmem : site ∈ sites) : Chain sites (site :: chain) :=
  ⟨List.nodup_cons.2 ⟨hsite, h.nodup⟩, List.cons_subset.2 ⟨hmem, h.subset⟩⟩

theorem Chain.length_le {sites chain : List Site} (h : Chain sites chain) :
    chain.length ≤ sites.length := (List.Nodup.subperm h.nodup h.subset).length_le

/-- A chain of all but one of the sites leaves room for a pattern. -/
theorem Chain.exists_succ {sites chain : List Site} {room : Nat}
    (h : Chain sites (site :: chain)) (hroom : sites.length ≤ room + chain.length) :
    ∃ room', room = room' + 1 ∧ sites.length ≤ room' + (site :: chain).length := by
  have hlength := h.length_le
  rw [List.length_cons] at hlength ⊢
  exact ⟨room - 1, by omega, by omega⟩

/-- Resolving never raises the alarm, and it never runs out of room, as long as there is as much
of both as there are sites. -/
theorem pattern_alike_traced (alarm : List Site → Enter) {sites : List Site}
    (hstore : env.store.located.map Prod.snd ⊆ sites) :
    ∀ (room depth : Nat) (chain : List Site) (content : Pattern) (site : Site),
      Chain sites chain → (content.located site).map Prod.snd ⊆ sites →
      sites.length ≤ room + chain.length → sites.length ≤ depth + chain.length →
      Alike (fun _ => True) chain chain (pattern env room content site)
        (traced env alarm depth chain content site) := by
  intro room
  -- the chain has no site twice and lies among the sites of the store, which bounds the nesting
  induction room using Nat.strongRecOn with
  | ind room ih =>
    intro depth chain content site hchain hcontent hroom hdepth
    rw [pattern.eq_def, traced.eq_def]
    cases content.simpleText? with
    | some text => exact .pure _
    | none =>
      by_cases hsite : site ∈ chain
      · exact .ask_seen hsite hsite ((Alike.report trivial).bind fun _ => .pure _)
      · -- a site that is not in the chain leaves some room
        have hchain' := hchain.cons hsite
          (hcontent (List.mem_map_of_mem (content.mem_located_self site)))
        obtain ⟨room, rfl, hroom'⟩ := hchain'.exists_succ hroom
        obtain ⟨depth, rfl, hdepth'⟩ := hchain'.exists_succ hdepth
        dsimp only
        rw [if_neg hsite]
        refine .ask_left hsite (.ask_right hsite (.visit_left (.visit_right ?_)))
        -- what is nested in the pattern and what it refers to stay among the sites
        refine joined_alike (reports_true env) (pattern_tidy room)
          ⟨fun inner hinner => ?_, fun content' site' _ hstands => ?_⟩
        · exact ih room (Nat.lt_succ_self room) depth _ _ _ hchain'
            (List.Subset.trans (List.map_subset _ (located_subset_of_elements hinner)) hcontent)
            hroom' hdepth'
        · exact ih room (Nat.lt_succ_self room) depth _ _ _ hchain'
            (List.Subset.trans (List.map_subset _ hstands.located_subset) hstore) hroom' hdepth'

/-- Computations that agree from the empty scope have the same outcome. -/
theorem Alike.run_eq {x y : Resolver α} (h : Alike P [] [] x y) : run x = run y := by
  obtain ⟨result, recorded, -, hx, hy⟩ := h []
  unfold run
  rw [show StateT.run x Scope.empty = _ from hx, show StateT.run y Scope.empty = _ from hy]

theorem Alike.of_mem_errors {x y : Resolver α} (h : Alike P [] [] x y) {error : ResolveError}
    (herror : error ∈ (run x).2) : P error := by
  obtain ⟨result, recorded, hrecorded, hx, -⟩ := h []
  unfold run at herror
  rw [show StateT.run x Scope.empty = _ from hx] at herror
  exact hrecorded error herror

end Resolver

namespace Environment

open Resolver (traced)

variable (env : Environment)

/-- The sites that a pattern can stand at: those of the store, and those below the start. -/
def sites (content : Pattern) (site : Site) : List Site :=
  ((env.store.located ++ content.located site).map Prod.snd).dedup

theorem located_subset_sites (content : Pattern) (site : Site) :
    env.store.located.map Prod.snd ⊆ env.sites content site ∧
      (content.located site).map Prod.snd ⊆ env.sites content site := by
  refine ⟨fun inner hinner => List.mem_dedup.2 ?_, fun inner hinner => List.mem_dedup.2 ?_⟩ <;>
    rw [List.map_append]
  · exact List.mem_append_left _ hinner
  · exact List.mem_append_right _ hinner

/-- There are no more sites than patterns. -/
theorem length_sites_le (content : Pattern) (site : Site) :
    (env.sites content site).length ≤ env.store.patternCount + content.patternCount := by
  have hle :=
    (List.dedup_sublist ((env.store.located ++ content.located site).map Prod.snd)).length_le
  rwa [List.length_map, List.length_append, env.store.length_located, content.length_located]
    at hle

/-- The text of a pattern, resolved with the chain of nested patterns and no more of them than there
are sites. -/
def formatTraced (alarm : List Site → Resolver.Enter) (content : Pattern) (site : Site) :
    Resolver String := do
  return (← traced env alarm (env.sites content site).length [] content site).format

/-- The text of a pattern, resolved with room for a number of nested patterns. -/
def formatIn (room : Nat) (content : Pattern) (site : Site) : Resolver String := do
  return (← Resolver.pattern env room content site).format

theorem formatIn_eq_traced (alarm : List Site → Resolver.Enter) (content : Pattern) (site : Site)
    {room : Nat} (hroom : (env.sites content site).length ≤ room) :
    Resolver.run (env.formatIn room content site) =
      Resolver.run (env.formatTraced alarm content site) := by
  obtain ⟨hstore, hcontent⟩ := env.located_subset_sites content site
  refine Resolver.Alike.run_eq (P := fun _ => True) (Resolver.Alike.bind ?_ fun _ => .pure _)
  exact Resolver.pattern_alike_traced alarm hstore _ _ [] content site (.nil _) hcontent
    hroom (Nat.le_refl _)

theorem formatPattern_eq_traced (alarm : List Site → Resolver.Enter) (content : Pattern)
    (site : Site) :
    Resolver.run (env.formatPattern content site) =
      Resolver.run (env.formatTraced alarm content site) :=
  env.formatIn_eq_traced alarm content site (env.length_sites_le content site)

/-- More room than there are patterns makes no difference. -/
theorem run_formatIn (content : Pattern) (site : Site) {room : Nat}
    (hroom : env.store.patternCount + content.patternCount ≤ room) :
    Resolver.run (env.formatIn room content site) =
      Resolver.run (env.formatPattern content site) := by
  have alarm : List Site → Resolver.Enter := fun _ _ _ => Resolver.cyclic
  rw [env.formatPattern_eq_traced alarm]
  exact env.formatIn_eq_traced alarm content site
    (Nat.le_trans (env.length_sites_le content site) hroom)

/-- Texts of patterns that follow one another, with the same room. -/
theorem formatIn_follows {env' : Environment} {C : Resolver.Comparison} (H : C.Between env env')
    {shows : List Char → List Char → Prop} (D : C.Displays env env' (Resolver.shown env') shows)
    (hcyclic : ¬C.bad .cyclic → C.sound .cyclic) (room : Nat) (content : Pattern) (site : Site)
    (hcontent : ∀ inner, env.store.Meets content site inner → C.Admits env inner) :
    Resolver.Follows C.bad C.sound [] []
      (fun s t => ∃ v w, C.related v w ∧ s = v.format ∧ t = w.format)
      (env.formatIn room content site) (env'.formatIn room content site) := by
  unfold formatIn
  rw [Resolver.pattern_eq env']
  have hpattern := H.pattern_follows D hcyclic room [] content site hcontent
  exact hpattern.bind (fun _ => .pure _) fun v w hvw => .pure ⟨v, w, hvw, rfl, rfl⟩

/-- Formatting ends: patterns nest no deeper than there are sites, and none is entered while it is
being resolved. Whatever an alarm would do, it is never raised. -/
theorem format_nesting (alarm : List Site → Resolver.Enter) :
    (∀ content site, Resolver.run (env.formatPattern content site) =
      Resolver.run (env.formatTraced alarm content site)) ∧
    ∀ message root, Resolver.run (env.formatMessage message root) =
      match message.value with
      | some content => Resolver.run (env.formatTraced alarm content (.value root))
      | none => ("", [.noValue message.id.name]) := by
  refine ⟨env.formatPattern_eq_traced alarm, fun message root => ?_⟩
  unfold formatMessage
  cases message.value with
  | some content => exact env.formatPattern_eq_traced alarm content (.value root)
  | none => rfl

end Environment

end Localization
