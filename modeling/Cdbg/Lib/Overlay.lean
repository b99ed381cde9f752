import Mathlib.Tactic

/-!
Sites laid over an image.

A site covers a set of addresses with a text of its own and keeps the contents it
covered. A store is *overlaid* with a set of sites when every site shows its text
and keeps the contents of the image, and outside of all sites the store is the
image. Everything is relative to a region `C` of addresses: what happens outside
of it is left open.

* `Overlaid.plant`: covering fresh addresses with what they hold kept, extends
  the set of sites;
* `Overlaid.lift`: putting back what a site kept removes it, provided no other
  site touches its addresses;
* `Overlaid.drop`: a site that does not touch the region is no site.
-/

/-- A site over a store: the addresses it covers, what it shows there, and what it
keeps of the contents it covered. -/
structure Site (α β : Type) where
  dom : Set α
  text : α → β
  saved : α → β

/-- A store `m` is the image `orig` overlaid with `sites`, on the region `C`. -/
structure Overlaid {α β : Type} (C : Set α) (orig : α → β) (sites : Set (Site α β))
    (m : α → β) : Prop where
  text : ∀ s ∈ sites, ∀ x ∈ s.dom, x ∈ C → m x = s.text x
  saved : ∀ s ∈ sites, ∀ x ∈ s.dom, x ∈ C → s.saved x = orig x
  outside : ∀ x ∈ C, (∀ s ∈ sites, x ∉ s.dom) → m x = orig x

namespace Overlaid

variable {α β : Type} {C : Set α} {orig m m' : α → β} {sites : Set (Site α β)}

/-- The image itself carries no sites. -/
lemma of_eqOn (h : ∀ x ∈ C, m x = orig x) : Overlaid C orig ∅ m :=
  ⟨by simp, by simp, fun x hx _ => h x hx⟩

/-- Only the contents on the region matter. -/
lemma congr (h : Overlaid C orig sites m) (hm : ∀ x ∈ C, m' x = m x) :
    Overlaid C orig sites m' where
  text s hs x hx hC := (hm x hC).trans (h.text s hs x hx hC)
  saved := h.saved
  outside x hx hs := (hm x hx).trans (h.outside x hx hs)

/-- **Planting a site**: a site over addresses no other site covers, keeping what
the store held there, joins the sites. -/
lemma plant (h : Overlaid C orig sites m) (s : Site α β)
    (hfresh : ∀ s' ∈ sites, ∀ x ∈ s.dom, x ∉ s'.dom)
    (hsaved : ∀ x ∈ s.dom, x ∈ C → s.saved x = m x)
    (htext : ∀ x ∈ s.dom, x ∈ C → m' x = s.text x)
    (hframe : ∀ x ∉ s.dom, x ∈ C → m' x = m x) :
    Overlaid C orig (insert s sites) m' where
  text s' hs' x hx hC := by
    rcases Set.mem_insert_iff.mp hs' with rfl | hs'
    · exact htext x hx hC
    · rw [hframe x (fun hsx => hfresh s' hs' x hsx hx) hC]
      exact h.text s' hs' x hx hC
  saved s' hs' x hx hC := by
    rcases Set.mem_insert_iff.mp hs' with rfl | hs'
    · rw [hsaved x hx hC]
      exact h.outside x hC fun s' hs' hx' => hfresh s' hs' x hx hx'
    · exact h.saved s' hs' x hx hC
  outside x hC hno := by
    rw [hframe x (hno s (Set.mem_insert _ _)) hC]
    exact h.outside x hC fun s' hs' => hno s' (Set.mem_insert_of_mem _ hs')

/-- **Lifting a site**: putting back what a site kept removes the site. -/
lemma lift {s : Site α β} {rest : Set (Site α β)} (h : Overlaid C orig (insert s rest) m)
    (hapart : ∀ s' ∈ rest, ∀ x ∈ s.dom, x ∉ s'.dom)
    (hback : ∀ x ∈ s.dom, x ∈ C → m' x = s.saved x)
    (hframe : ∀ x ∉ s.dom, x ∈ C → m' x = m x) :
    Overlaid C orig rest m' where
  text s' hs' x hx hC := by
    rw [hframe x (fun hsx => hapart s' hs' x hsx hx) hC]
    exact h.text s' (Set.mem_insert_of_mem _ hs') x hx hC
  saved s' hs' := h.saved s' (Set.mem_insert_of_mem _ hs')
  outside x hC hno := by
    by_cases hx : x ∈ s.dom
    · rw [hback x hx hC]
      exact h.saved s (Set.mem_insert _ _) x hx hC
    · rw [hframe x hx hC]
      refine h.outside x hC fun s' hs' => ?_
      rcases Set.mem_insert_iff.mp hs' with rfl | hs'
      · exact hx
      · exact hno s' hs'

/-- A site that does not touch the region may be forgotten. -/
lemma drop {s : Site α β} {rest : Set (Site α β)} (h : Overlaid C orig (insert s rest) m)
    (hout : ∀ x ∈ s.dom, x ∉ C) : Overlaid C orig rest m where
  text s' hs' := h.text s' (Set.mem_insert_of_mem _ hs')
  saved s' hs' := h.saved s' (Set.mem_insert_of_mem _ hs')
  outside x hC hno := by
    refine h.outside x hC fun s' hs' hx => ?_
    rcases Set.mem_insert_iff.mp hs' with rfl | hs'
    · exact hout x hx hC
    · exact hno s' hs' hx

end Overlaid
