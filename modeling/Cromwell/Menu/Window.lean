/-
Module: Cromwell.Menu.Window
Layer: Proofs
Purpose: The window of eight items that an open menu shows. A menu that was built by `TextMenuAddItem` is a doubly
  linked list of the added items; on it the window and the selection are two places, and each button keeps the
  selection within the window once it is there. Whether it is there at the start depends on the selected item.
Imports: Cromwell.Menu.TextMenu, Cromwell.Lib.Along
Trusted boundary: human-reviewed statement (OnScreen, StartsInWindow)
Main exports: Linked, buildMenu_linked, Window, OnScreen, StartsInWindow, selection_on_screen
-/
import Cromwell.Menu.TextMenu
import Cromwell.Lib.Along

namespace Cromwell.Menu

/-! ### Linked items -/

/-- A chain of items: where it starts, the item before it, and its items in order. -/
def Linked (items : Nat → TextMenuItem) : Option Nat → Option Nat → List Nat → Prop
  | _, first, [] => first = none
  | previous, first, a :: rest =>
      first = some a ∧ (items a).previousMenuItem = previous ∧ Linked items (some a) (items a).nextMenuItem rest

variable {items : Nat → TextMenuItem} {previous first : Option Nat} {l : List Nat}

theorem Linked.starts (h : Linked items previous first l) : first = l[0]? := by
  cases l with
  | nil => exact h
  | cons a rest => exact h.1

/-- The links of the item at a place. -/
theorem Linked.links (h : Linked items previous first l) {i a : Nat} (hi : l[i]? = some a) :
    (items a).nextMenuItem = l[i + 1]? ∧
      (items a).previousMenuItem = if i = 0 then previous else l[i - 1]? := by
  induction l generalizing previous first i with
  | nil =>
      cases hi
  | cons b rest ih =>
      obtain ⟨-, hprevious, hrest⟩ := h
      cases i with
      | zero =>
          cases hi
          exact ⟨hrest.starts, hprevious⟩
      | succ i =>
          obtain ⟨hnext, hprev⟩ := ih hrest hi
          refine ⟨hnext, hprev.trans ?_⟩
          rw [if_neg (Nat.succ_ne_zero i), Nat.add_sub_cancel]
          cases i with
          | zero => rfl
          | succ i => rfl

/-- The search for the last item. -/
theorem lastItem_linked (h : Linked items previous first l) {fuel : Nat} (hfuel : l.length < fuel)
    (current : Option Nat) : lastItem items fuel first current = some (l.getLast?.or current) := by
  induction l generalizing previous first fuel current with
  | nil =>
      obtain ⟨fuel, rfl⟩ := Nat.exists_eq_succ_of_ne_zero (Nat.ne_zero_of_lt hfuel)
      rw [show first = none from h]
      rfl
  | cons a rest ih =>
      obtain ⟨fuel, rfl⟩ := Nat.exists_eq_succ_of_ne_zero (Nat.ne_zero_of_lt hfuel)
      obtain ⟨rfl, -, hrest⟩ := h
      rw [lastItem, ih hrest (Nat.lt_of_succ_lt_succ hfuel)]
      cases rest with
      | nil => rfl
      | cons b rest => rw [List.getLast?_cons_cons, List.getLast?_eq_some_getLast (List.cons_ne_nil b rest)]; rfl

theorem linkItem_new (items : Nat → TextMenuItem) (current : Option Nat) (new : Nat) :
    (linkItem items current new new).previousMenuItem = current ∧
      (linkItem items current new new).nextMenuItem = none := by
  simp [linkItem, setItem]

theorem linkItem_old (items : Nat → TextMenuItem) (current : Option Nat) {new a : Nat} (h : a ≠ new) :
    (linkItem items current new a).previousMenuItem = (items a).previousMenuItem ∧
      (linkItem items current new a).nextMenuItem =
        if current = some a then some new else (items a).nextMenuItem := by
  cases current with
  | none =>
      simp [linkItem, setItem, h]
  | some c =>
      by_cases hc : c = a
      · subst hc
        simp [linkItem, setItem, h]
      · simp [linkItem, setItem, h, Ne.symm hc, hc]

/-- An item behind the last one. -/
theorem linkItem_linked (h : Linked items previous first l) (nodup : l.Nodup) {new : Nat} (fresh : new ∉ l) :
    Linked (linkItem items (l.getLast?.or previous) new) previous (l.head?.or (some new)) (l ++ [new]) := by
  induction l generalizing previous first with
  | nil =>
      exact ⟨rfl, linkItem_new items previous new⟩
  | cons a rest ih =>
      obtain ⟨-, hprevious, hrest⟩ := h
      obtain ⟨hout, hnodup⟩ := List.nodup_cons.mp nodup
      have hne : a ≠ new := fun heq => fresh (heq ▸ List.mem_cons_self)
      have hlast : (a :: rest).getLast?.or previous = rest.getLast?.or (some a) := by
        cases rest with
        | nil => rfl
        | cons b rest =>
            rw [List.getLast?_cons_cons, List.getLast?_eq_some_getLast (List.cons_ne_nil b rest)]
            rfl
      have ih' := ih hrest hnodup fun hmem => fresh (List.mem_cons_of_mem a hmem)
      obtain ⟨hprev, hnext⟩ := linkItem_old items (rest.getLast?.or (some a)) hne
      rw [hlast]
      refine ⟨rfl, hprev.trans hprevious, ?_⟩
      have hstart : (linkItem items (rest.getLast?.or (some a)) new a).nextMenuItem = rest.head?.or (some new) := by
        rw [hnext]
        cases rest with
        | nil => simp
        | cons b rest =>
            have hmem : (b :: rest).getLast (List.cons_ne_nil b rest) ≠ a := fun heq =>
              hout (heq ▸ List.getLast_mem (List.cons_ne_nil b rest))
            rw [List.getLast?_eq_some_getLast (List.cons_ne_nil b rest), Option.some_or, if_neg (by simpa using hmem),
              hrest.1]
            rfl
      rw [hstart]
      exact ih'

theorem textMenuAddItem_linked {menu : TextMenu} (h : Linked menu.items none menu.firstMenuItem l) (nodup : l.Nodup)
    {new fuel : Nat} (fresh : new ∉ l) (hfuel : l.length < fuel) :
    ∃ menu', textMenuAddItem fuel menu new = some menu' ∧
      Linked menu'.items none menu'.firstMenuItem (l ++ [new]) := by
  have hlast := lastItem_linked h hfuel none
  rw [Option.or_none] at hlast
  rw [textMenuAddItem, hlast]
  refine ⟨_, rfl, ?_⟩
  have hlinked := linkItem_linked h nodup fresh
  rw [Option.or_none] at hlinked
  cases l with
  | nil =>
      exact hlinked
  | cons a rest =>
      dsimp only
      rw [if_neg (by simp), h.1]
      exact hlinked

/-- Adding items one after the other links them in this order. -/
theorem buildMenu_linked (items : Nat → TextMenuItem) {added : List Nat} (nodup : added.Nodup) :
    ∃ menu, buildMenu items added = some menu ∧ Linked menu.items none menu.firstMenuItem added := by
  have hrun : ∀ (rest l : List Nat) (menu : TextMenu), Linked menu.items none menu.firstMenuItem l →
      (l ++ rest).Nodup → (l ++ rest).length ≤ added.length →
      ∃ menu', rest.foldlM (textMenuAddItem (added.length + 1)) menu = some menu' ∧
        Linked menu'.items none menu'.firstMenuItem (l ++ rest) := by
    intro rest
    induction rest with
    | nil =>
        intro l menu h _ _
        refine ⟨menu, rfl, ?_⟩
        rw [List.append_nil]
        exact h
    | cons new rest ih =>
        intro l menu h hnodup hlen
        rw [List.append_cons] at hnodup hlen ⊢
        have hfirst := List.Nodup.of_append_left hnodup
        have hfresh : new ∉ l := fun hmem => (List.nodup_append.mp hfirst).2.2 new hmem new (List.mem_singleton.mpr rfl) rfl
        have hfuel : l.length < added.length + 1 := by
          simp only [List.length_append] at hlen
          omega
        obtain ⟨menu', hadd, hlinked⟩ := textMenuAddItem_linked h (List.Nodup.of_append_left hfirst) hfresh hfuel
        obtain ⟨menu'', hrest, hall⟩ := ih (l ++ [new]) menu' hlinked hnodup hlen
        refine ⟨menu'', ?_, hall⟩
        rw [List.foldlM_cons, hadd]
        exact hrest
  exact hrun added [] ⟨none, items⟩ rfl nodup (Nat.le_refl _)

/-! ### The window -/

/-- Two places of a menu with these items: the first one in the window, and the selected one, in the window. -/
structure Window (m : OpenMenu) (l : List Nat) (first selected : Nat) : Prop where
  nodup : l.Nodup
  linked : Linked m.menu.items none m.menu.firstMenuItem l
  firstVisible : m.firstVisibleMenuItem = l[first]?
  selection : m.selectedMenuItem = l[selected]?
  present : selected < l.length
  above : first ≤ selected
  below : selected < first + 8

/-- What the screen shows: the items of the window, among them the selected one. -/
structure OnScreen (m : OpenMenu) : Prop where
  firstVisible : m.firstVisibleMenuItem ≠ none
  atMostEight : (textMenuDraw m).length ≤ 8
  selected : ∃ item, m.selectedMenuItem = some item ∧ (item, true) ∈ textMenuDraw m

/-- The items from a place on are drawn. -/
theorem drawLoop_linked (h : Linked items previous first l) (selectedItem : Option Nat) (menucount place : Nat) :
    drawLoop items selectedItem menucount l[place]? =
      ((l.drop place).take menucount).map fun item => (item, decide (some item = selectedItem)) := by
  induction menucount generalizing place with
  | zero =>
      rw [List.take_zero]
      rfl
  | succ menucount ih =>
      cases hplace : l[place]? with
      | none =>
          rw [List.drop_eq_nil_of_le (List.getElem?_eq_none_iff.mp hplace)]
          rfl
      | some item =>
          obtain ⟨hlt, hitem⟩ := List.getElem?_eq_some_iff.mp hplace
          rw [drawLoop, (h.links hplace).1, ih, List.drop_eq_getElem_cons hlt, List.take_succ_cons, List.map_cons, hitem]

theorem drawLoop_length (items : Nat → TextMenuItem) (selectedItem : Option Nat) (menucount : Nat) (start : Option Nat) :
    (drawLoop items selectedItem menucount start).length ≤ menucount := by
  induction menucount generalizing start with
  | zero =>
      exact Nat.le_refl 0
  | succ menucount ih =>
      cases start with
      | none => exact Nat.zero_le _
      | some item => exact Nat.succ_le_succ (ih _)

theorem Window.onScreen {m : OpenMenu} {first selected : Nat} (w : Window m l first selected) : OnScreen m := by
  have hpresent := w.present
  have hfirst : first < l.length := Nat.lt_of_le_of_lt w.above hpresent
  refine ⟨?_, drawLoop_length _ _ _ _, l[selected], ?_, ?_⟩
  · rw [w.firstVisible, List.getElem?_eq_getElem hfirst]
    exact Option.some_ne_none _
  · rw [w.selection, List.getElem?_eq_getElem w.present]
  · rw [textMenuDraw, w.firstVisible, drawLoop_linked w.linked]
    refine List.mem_map.mpr ⟨l[selected], ?_, ?_⟩
    · refine List.mem_iff_getElem?.mpr ⟨selected - first, ?_⟩
      have habove := w.above
      have hbelow := w.below
      rw [List.getElem?_take_of_lt (by omega), List.getElem?_drop, Nat.add_sub_cancel' habove,
        List.getElem?_eq_getElem w.present]
    · rw [w.selection, List.getElem?_eq_getElem w.present, decide_eq_true rfl]

/-- UP keeps the selection in the window. -/
theorem pressUp_window {m : OpenMenu} {first selected : Nat} (w : Window m l first selected) :
    ∃ m' redraw first' selected', pressUp m = some (m', redraw) ∧ Window m' l first' selected' := by
  have hselected := List.getElem?_eq_getElem w.present
  have hlinks := w.linked.links hselected
  have habove := w.above
  have hbelow := w.below
  have hpresent := w.present
  rw [pressUp, w.selection, hselected]
  dsimp only
  rw [hlinks.2]
  by_cases hzero : selected = 0
  · rw [if_pos hzero]
    exact ⟨m, false, first, selected, rfl, w⟩
  · have hprevious : selected - 1 < l.length := by omega
    rw [if_neg hzero, List.getElem?_eq_getElem hprevious]
    by_cases hedge : first = selected
    · refine ⟨_, true, selected - 1, selected - 1, rfl, w.nodup, w.linked, ?_, ?_, hprevious, Nat.le_refl _, by omega⟩
      · dsimp only
        rw [if_pos (by rw [w.firstVisible, ← hselected, hedge]), List.getElem?_eq_getElem hprevious]
      · rw [List.getElem?_eq_getElem hprevious]
    · refine ⟨_, true, first, selected - 1, rfl, w.nodup, w.linked, ?_, ?_, hprevious, by omega, by omega⟩
      · dsimp only
        rw [if_neg, w.firstVisible]
        rw [w.firstVisible, ← hselected]
        exact fun heq => hedge ((List.getElem?_inj (by omega) w.nodup).mp heq)
      · rw [List.getElem?_eq_getElem hprevious]

/-- The last item of a window. -/
theorem lastVisible_linked (h : Linked items previous first l) (i : Nat) {place a : Nat} (ha : l[place]? = some a) :
    l[min (place + i) (l.length - 1)]? = some (lastVisible items i a) := by
  induction i generalizing place a with
  | zero =>
      obtain ⟨hlt, -⟩ := List.getElem?_eq_some_iff.mp ha
      rw [Nat.add_zero, Nat.min_eq_left (by omega)]
      exact ha
  | succ i ih =>
      obtain ⟨hlt, -⟩ := List.getElem?_eq_some_iff.mp ha
      rw [lastVisible, (h.links ha).1]
      cases hnext : l[place + 1]? with
      | none =>
          have hend := List.getElem?_eq_none_iff.mp hnext
          rw [Nat.min_eq_right (by omega), show l.length - 1 = place by omega]
          exact ha
      | some b =>
          rw [show place + (i + 1) = place + 1 + i by omega]
          exact ih hnext

/-- DOWN keeps the selection in the window. -/
theorem pressDown_window {m : OpenMenu} {first selected : Nat} (w : Window m l first selected) :
    ∃ m' redraw first' selected', pressDown m = some (m', redraw) ∧ Window m' l first' selected' := by
  have hselected := List.getElem?_eq_getElem w.present
  have hlinks := w.linked.links hselected
  have habove := w.above
  have hbelow := w.below
  have hpresent := w.present
  have hfirst : first < l.length := by omega
  rw [pressDown, w.selection, hselected]
  dsimp only
  rw [hlinks.1, w.firstVisible, List.getElem?_eq_getElem hfirst]
  by_cases hend : selected + 1 < l.length
  · have hlast := lastVisible_linked w.linked 7 (List.getElem?_eq_getElem hfirst)
    rw [List.getElem?_eq_getElem hend]
    by_cases hedge : selected = first + 7
    · refine ⟨_, true, first + 1, selected + 1, rfl, w.nodup, w.linked, ?_, ?_, hend, by omega, by omega⟩
      · rw [show min (first + 7) (l.length - 1) = selected by omega, hselected, Option.some.injEq] at hlast
        dsimp only
        rw [if_pos hlast, (w.linked.links (List.getElem?_eq_getElem hfirst)).1]
      · rw [List.getElem?_eq_getElem hend]
    · refine ⟨_, true, first, selected + 1, rfl, w.nodup, w.linked, ?_, ?_, hend, by omega, by omega⟩
      · dsimp only
        rw [if_neg, List.getElem?_eq_getElem hfirst]
        intro heq
        rw [← heq, ← hselected] at hlast
        have hplace := (List.getElem?_inj (by omega) w.nodup).mp hlast
        omega
      · rw [List.getElem?_eq_getElem hend]
  · rw [List.getElem?_eq_none (Nat.le_of_not_lt hend)]
    exact ⟨m, false, first, selected, rfl, w⟩

/-- A menu at the start: the window begins with the first item. -/
theorem openMenu_window {menu : TextMenu} {selectedItem : Option Nat} (nodup : l.Nodup)
    (linked : Linked menu.items none menu.firstMenuItem l) (present : l ≠ [])
    (selected : ∀ item, selectedItem = some item → item ∈ l.take 8) :
    ∃ place, Window (openMenu menu selectedItem) l 0 place := by
  have hlen : 0 < l.length := List.length_pos_iff.mpr present
  cases selectedItem with
  | none =>
      exact ⟨0, nodup, linked, linked.starts, linked.starts, hlen, Nat.le_refl 0, by omega⟩
  | some item =>
      obtain ⟨place, hplace⟩ := List.mem_iff_getElem?.mp (selected item rfl)
      obtain ⟨hlt, -⟩ := List.getElem?_eq_some_iff.mp hplace
      rw [List.length_take] at hlt
      rw [List.getElem?_take_of_lt (by omega)] at hplace
      exact ⟨place, nodup, linked, linked.starts, hplace.symm, by omega, Nat.zero_le _, by omega⟩

/-! ### Sessions -/

/-- The items of a menu are different ones, and the selected item is one of them. -/
def WellBuilt : Input → Prop
  | .call _ added selectedItem => added.Nodup ∧ ∀ item, selectedItem = some item → item ∈ added
  | _ => True

/-- A menu that is opened has an item, and its selected item, if any, is one of the first eight. -/
def StartsInWindow (s : Session) : Input → Prop
  | .call _ added selectedItem => s.crashed = false → s.waiting = false →
      added ≠ [] ∧ ∀ item, selectedItem = some item → item ∈ added.take 8
  | _ => True

/-- What is drawn shows the selection, and no open menu has lost its window. -/
structure SelectionShown (s : Session) (input : Input) : Prop where
  drawn : ∀ m, (s.next input).2 = some m → OnScreen m
  windows : ∀ m ∈ (s.next input).1.menus, m.firstVisibleMenuItem ≠ none

/-- Every open menu shows its selection. -/
def AllWindows (menus : List OpenMenu) : Prop := ∀ m ∈ menus, ∃ l first selected, Window m l first selected

/-- The result of an input keeps all windows, and draws one of the open menus. -/
structure Shown (r : Session × Option OpenMenu) : Prop where
  windows : AllWindows r.1.menus
  drawn : ∀ m, r.2 = some m → m ∈ r.1.menus

theorem Shown.quiet {s : Session} (h : AllWindows s.menus) : Shown (s, none) := ⟨h, fun _ h => nomatch h⟩

theorem Shown.moved {s : Session} {rest : List OpenMenu} {r : Option (OpenMenu × Bool)}
    (hrest : AllWindows rest) (hr : ∃ m' redraw first selected, r = some (m', redraw) ∧ Window m' l first selected) :
    Shown (s.moved rest r) := by
  obtain ⟨m', redraw, first, selected, rfl, w⟩ := hr
  refine ⟨List.forall_mem_cons.mpr ⟨⟨l, first, selected, w⟩, hrest⟩, fun d hd => ?_⟩
  cases redraw with
  | true =>
      cases hd
      exact List.mem_cons_self
  | false =>
      cases hd

theorem Shown.accepted {s : Session} {m : OpenMenu} {rest : List OpenMenu} (h : AllWindows (m :: rest)) :
    Shown (s.accepted m rest) := by
  unfold Session.accepted
  split
  · exact ⟨fun d hd => h d (List.mem_cons_of_mem m hd), fun _ hd => nomatch hd⟩
  · refine ⟨h, fun d hd => ?_⟩
    cases hd
    exact List.mem_cons_self

/-- A button of a waiting menu. -/
theorem waitingNext_shown {s : Session} {m : OpenMenu} {rest : List OpenMenu} (hmenus : s.menus = m :: rest)
    (h : AllWindows (m :: rest)) (input : Input) : Shown (s.waitingNext m rest input) := by
  have hs : AllWindows s.menus := hmenus ▸ h
  have hrest : AllWindows rest := fun d hd => h d (List.mem_cons_of_mem m hd)
  obtain ⟨l, first, selected, w⟩ := h m List.mem_cons_self
  cases input with
  | up =>
      exact Shown.moved hrest (pressUp_window w)
  | down =>
      exact Shown.moved hrest (pressDown_window w)
  | accept =>
      rw [Session.waitingNext, w.selection, List.getElem?_eq_getElem w.present]
      dsimp only
      split
      · exact Shown.quiet hs
      · exact Shown.accepted h
  | back =>
      exact ⟨hrest, fun _ hd => nomatch hd⟩
  | idle | call _ _ _ | breakOut | functionReturns =>
      exact Shown.quiet hs

/-- What the running function does. -/
theorem runningNext_shown {s : Session} {input : Input} (h : AllWindows s.menus) (built : WellBuilt input)
    (starts : ∀ items added selectedItem, input = .call items added selectedItem →
      added ≠ [] ∧ ∀ item, selectedItem = some item → item ∈ added.take 8) : Shown (s.runningNext input) := by
  cases input with
  | call items added selectedItem =>
      obtain ⟨menu, hbuild, hlinked⟩ := buildMenu_linked items built.1
      obtain ⟨hne, hselected⟩ := starts items added selectedItem rfl
      obtain ⟨place, w⟩ := openMenu_window built.1 hlinked hne hselected
      rw [Session.runningNext, hbuild]
      refine ⟨List.forall_mem_cons.mpr ⟨⟨added, 0, place, w⟩, h⟩, fun d hd => ?_⟩
      cases hd
      exact List.mem_cons_self
  | functionReturns =>
      rw [Session.runningNext]
      split
      · exact Shown.quiet h
      · rename_i m rest hmenus
        exact Shown.accepted (hmenus ▸ h)
  | idle | up | down | accept | back | breakOut =>
      exact Shown.quiet h

theorem next_shown {s : Session} {input : Input} (h : AllWindows s.menus) (built : WellBuilt input)
    (starts : StartsInWindow s input) : Shown (s.next input) := by
  unfold Session.next
  split
  · exact Shown.quiet h
  · rename_i hcrashed
    split
    · split
      · exact Shown.quiet h
      · rename_i m rest hmenus
        exact waitingNext_shown hmenus (hmenus ▸ h) input
    · rename_i hwaiting
      refine runningNext_shown h built fun items added selectedItem hinput => ?_
      subst hinput
      exact starts (Bool.eq_false_iff.mpr hcrashed) (Bool.eq_false_iff.mpr hwaiting)

theorem Shown.selectionShown {s : Session} {input : Input} (h : Shown (s.next input)) : SelectionShown s input := by
  refine ⟨fun m hm => ?_, fun m hm => ?_⟩
  · obtain ⟨l, first, selected, w⟩ := h.windows m (h.drawn m hm)
    exact w.onScreen
  · obtain ⟨l, first, selected, w⟩ := h.windows m hm
    exact w.onScreen.firstVisible

/-- A menu that shows its selection when it is opened has started in the window. -/
theorem SelectionShown.startsInWindow {s : Session} {input : Input} (h : SelectionShown s input)
    (built : WellBuilt input) : StartsInWindow s input := by
  cases input with
  | call items added selectedItem =>
      intro hcrashed hwaiting
      obtain ⟨menu, hbuild, hlinked⟩ := buildMenu_linked items built.1
      have hdrawn : (s.next (.call items added selectedItem)).2 = some (openMenu menu selectedItem) := by
        rw [Session.next, hcrashed, hwaiting, if_neg Bool.noConfusion, if_neg Bool.noConfusion, Session.runningNext, hbuild]
      have hscreen := h.drawn _ hdrawn
      constructor
      · rintro rfl
        exact hscreen.firstVisible hlinked
      · intro item hitem
        obtain ⟨selected, hselected, hmem⟩ := hscreen.selected
        have hdraw : textMenuDraw (openMenu menu selectedItem) =
            ((added.drop 0).take 8).map fun a => (a, decide (some a = (openMenu menu selectedItem).selectedMenuItem)) := by
          rw [← drawLoop_linked hlinked, ← hlinked.starts]
          rfl
        rw [hdraw, List.drop_zero] at hmem
        obtain ⟨a, ha, heq⟩ := List.mem_map.mp hmem
        subst hitem
        have hsame : selected = item := (Option.some.inj hselected).symm
        have hdrawnItem : a = selected := congrArg Prod.fst heq
        rw [← hsame, ← hdrawnItem]
        exact ha
  | idle | up | down | accept | back | breakOut | functionReturns =>
      exact trivial

/-- For every session, with menus of any length that call each other in any way and any buttons: the selected item is
    on the screen at every draw exactly when every menu is opened with an item, and with a selected item among its
    first eight. -/
theorem selection_on_screen (inputs : List Input) (built : ∀ input ∈ inputs, WellBuilt input) :
    Along (fun s input => (s.next input).1) SelectionShown Session.start inputs ↔
      Along (fun s input => (s.next input).1) StartsInWindow Session.start inputs := by
  refine Along.iff_of_inv (I := fun s => AllWindows s.menus) (E := WellBuilt)
    (fun s input hbuilt inv hstarts => ?_) (fun s input hbuilt inv => ⟨?_, ?_⟩) ?_ built
  · exact (next_shown inv hbuilt hstarts).windows
  · exact fun h => h.startsInWindow hbuilt
  · exact fun hstarts => (next_shown inv hbuilt hstarts).selectionShown
  · exact fun m hm => absurd hm List.not_mem_nil

/-- Items that do nothing. -/
def plainItems : Nat → TextMenuItem := fun _ => ⟨none, none, none⟩

theorem selection_on_screen_two_items :
    (∀ input ∈ [Input.call plainItems [0, 1] none, .down], WellBuilt input) ∧
      Along (fun s input => (s.next input).1) SelectionShown Session.start [.call plainItems [0, 1] none, .down] := by
  have hbuilt : ∀ input ∈ [Input.call plainItems [0, 1] none, .down], WellBuilt input := by
    intro input hinput
    rcases List.mem_cons.mp hinput with rfl | hinput
    · exact ⟨by decide, fun _ h => nomatch h⟩
    · rw [List.mem_singleton.mp hinput]
      exact trivial
  refine ⟨hbuilt, (selection_on_screen _ hbuilt).mpr ⟨fun _ _ => ⟨?_, fun _ h => nomatch h⟩, trivial, trivial⟩⟩
  exact List.cons_ne_nil 0 [1]

/-- A menu of nine items with the last one selected shows the first eight. -/
theorem ninth_item_hidden :
    ¬ Along (fun s input => (s.next input).1) SelectionShown Session.start
      [.call plainItems [0, 1, 2, 3, 4, 5, 6, 7, 8] (some 8)] := by
  intro h
  have hdraw : (Session.start.next (.call plainItems [0, 1, 2, 3, 4, 5, 6, 7, 8] (some 8))).2.map textMenuDraw =
      some [(0, false), (1, false), (2, false), (3, false), (4, false), (5, false), (6, false), (7, false)] := by
    decide +kernel
  obtain ⟨m, hm, hitems⟩ := Option.map_eq_some_iff.mp hdraw
  obtain ⟨item, -, hmem⟩ := (h.1.drawn m hm).selected
  rw [hitems] at hmem
  simp at hmem

end Cromwell.Menu
