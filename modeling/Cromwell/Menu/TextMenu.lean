/-
Module: Cromwell.Menu.TextMenu
Layer: Model
Purpose: The text menus of `menu/textmenu/TextMenu.c`: the doubly linked list of items that `TextMenuAddItem` builds,
  what `TextMenuDraw` puts on the screen, and the event loop of `TextMenu`. The function of an item may call
  `TextMenu` again, so a session is a stack of open menus; while a menu is open nobody relinks its items. Captions
  and colours are left out, but for which item is drawn as selected.
Imports: Mathlib
Trusted boundary: reviewed against src/menu/textmenu/TextMenu.c and TextMenu.h
Main exports: TextMenuItem, TextMenu, textMenuAddItem, buildMenu, textMenuDraw, OpenMenu, Session, Session.next
-/
import Mathlib

namespace Cromwell.Menu

/-- The links and the function of a `TEXTMENUITEM`; a pointer is the number of an item. -/
structure TextMenuItem where
  functionPtr : Option Nat
  previousMenuItem : Option Nat
  nextMenuItem : Option Nat

/-- A `TEXTMENU` and the memory of its items. -/
structure TextMenu where
  firstMenuItem : Option Nat
  items : Nat → TextMenuItem

/-! ### Building a menu -/

/-- `while (menuItem != NULL)` of `TextMenuAddItem`: the last item of the chain. -/
def lastItem (items : Nat → TextMenuItem) : Nat → Option Nat → Option Nat → Option (Option Nat)
  | 0, _, _ => none
  | _ + 1, none, currentMenuItem => some currentMenuItem
  | fuel + 1, some menuItem, _ => lastItem items fuel (items menuItem).nextMenuItem (some menuItem)

/-- Set one item. -/
def setItem (items : Nat → TextMenuItem) (a : Nat) (item : TextMenuItem) : Nat → TextMenuItem := Function.update items a item

/-- The memory after `newMenuItem` was appended behind `currentMenuItem`. -/
def linkItem (items : Nat → TextMenuItem) (currentMenuItem : Option Nat) (newMenuItem : Nat) : Nat → TextMenuItem :=
  let items := match currentMenuItem with
    | none => items
    | some current => setItem items current { items current with nextMenuItem := some newMenuItem }
  setItem items newMenuItem
    { items newMenuItem with nextMenuItem := none, previousMenuItem := currentMenuItem }

/-- `TextMenuAddItem`. -/
def textMenuAddItem (fuel : Nat) (menu : TextMenu) (newMenuItem : Nat) : Option TextMenu :=
  match lastItem menu.items fuel menu.firstMenuItem none with
  | none => none
  | some currentMenuItem => some
      { firstMenuItem := if currentMenuItem = none then some newMenuItem else menu.firstMenuItem
        items := linkItem menu.items currentMenuItem newMenuItem }

/-- An empty menu to which items are added. -/
def buildMenu (items : Nat → TextMenuItem) (added : List Nat) : Option TextMenu :=
  added.foldlM (textMenuAddItem (added.length + 1)) ⟨none, items⟩

/-! ### An open menu -/

/-- The variables of a call of `TextMenu`. -/
structure OpenMenu where
  menu : TextMenu
  selectedMenuItem : Option Nat
  firstVisibleMenuItem : Option Nat

/-- The loop of `TextMenuDraw`: the items that are drawn, with the mark of the selected one. -/
def drawLoop (items : Nat → TextMenuItem) (selectedItem : Option Nat) : Nat → Option Nat → List (Nat × Bool)
  | 0, _ => []
  | _ + 1, none => []
  | menucount + 1, some item =>
      (item, decide (some item = selectedItem)) :: drawLoop items selectedItem menucount (items item).nextMenuItem

/-- `TextMenuDraw`. -/
def textMenuDraw (m : OpenMenu) : List (Nat × Bool) :=
  drawLoop m.menu.items m.selectedMenuItem 8 m.firstVisibleMenuItem

/-- The start of `TextMenu`. -/
def openMenu (menu : TextMenu) (selectedItem : Option Nat) : OpenMenu where
  menu := menu
  selectedMenuItem := if selectedItem ≠ none then selectedItem else menu.firstMenuItem
  firstVisibleMenuItem := menu.firstMenuItem

/-- UP, and whether the menu is drawn again; nothing when a NULL pointer is followed. -/
def pressUp (m : OpenMenu) : Option (OpenMenu × Bool) :=
  match m.selectedMenuItem with
  | none => none
  | some selected =>
      match (m.menu.items selected).previousMenuItem with
      | none => some (m, false)
      | some previous => some
          ({ m with
            firstVisibleMenuItem :=
              if m.firstVisibleMenuItem = some selected then some previous else m.firstVisibleMenuItem
            selectedMenuItem := some previous }, true)

/-- `for (i=0; i<7; i++)`: the last item of the window, or of the menu. -/
def lastVisible (items : Nat → TextMenuItem) : Nat → Nat → Nat
  | 0, lastVisibleMenuItem => lastVisibleMenuItem
  | i + 1, lastVisibleMenuItem =>
      match (items lastVisibleMenuItem).nextMenuItem with
      | none => lastVisibleMenuItem
      | some next => lastVisible items i next

/-- DOWN. -/
def pressDown (m : OpenMenu) : Option (OpenMenu × Bool) :=
  match m.selectedMenuItem with
  | none => none
  | some selected =>
      match (m.menu.items selected).nextMenuItem with
      | none => some (m, false)
      | some next =>
          match m.firstVisibleMenuItem with
          | none => none
          | some first => some
              ({ m with
                firstVisibleMenuItem :=
                  if selected = lastVisible m.menu.items 7 first then (m.menu.items first).nextMenuItem else some first
                selectedMenuItem := some next }, true)

/-! ### Sessions -/

/-- The open menus, the last one first. Between two turns of its event loop a menu waits; otherwise the function of
    the selected item is running, or the code that opens the first menu. -/
structure Session where
  menus : List OpenMenu
  waiting : Bool
  breakOutOfMenu : Bool
  /-- A NULL pointer was followed. -/
  crashed : Bool

/-- What happens next: nothing is pressed, a button, a call of `TextMenu` by the running function for a menu with these
    items, the running function sets `breakOutOfMenu`, or returns. -/
inductive Input where
  | idle
  | up
  | down
  | accept
  | back
  | call (items : Nat → TextMenuItem) (added : List Nat) (selectedItem : Option Nat)
  | breakOut
  | functionReturns

namespace Session

/-- After a button that moves the selection. -/
def moved (s : Session) (rest : List OpenMenu) : Option (OpenMenu × Bool) → Session × Option OpenMenu
  | none => ({ s with crashed := true }, none)
  | some (m, redraw) => ({ s with menus := m :: rest }, if redraw then some m else none)

/-- The end of the branch for the A button. -/
def accepted (s : Session) (m : OpenMenu) (rest : List OpenMenu) : Session × Option OpenMenu :=
  if s.breakOutOfMenu then ({ s with menus := rest, waiting := false, breakOutOfMenu := false }, none)
  else ({ s with menus := m :: rest, waiting := true }, some m)

/-- An input while a menu waits. -/
def waitingNext (s : Session) (m : OpenMenu) (rest : List OpenMenu) : Input → Session × Option OpenMenu
  | .up => s.moved rest (pressUp m)
  | .down => s.moved rest (pressDown m)
  | .accept =>
      match m.selectedMenuItem with
      | none => ({ s with crashed := true }, none)
      | some selected =>
          if (m.menu.items selected).functionPtr ≠ none then ({ s with waiting := false }, none)
          else s.accepted m rest
  | .back => ({ s with menus := rest, waiting := false }, none)
  | _ => (s, none)

/-- An input while a function runs. -/
def runningNext (s : Session) : Input → Session × Option OpenMenu
  | .call items added selectedItem =>
      match buildMenu items added with
      | none => (s, none)
      | some menu =>
          ({ s with menus := openMenu menu selectedItem :: s.menus, waiting := true }, some (openMenu menu selectedItem))
  | .breakOut => ({ s with breakOutOfMenu := true }, none)
  | .functionReturns =>
      match s.menus with
      | [] => (s, none)
      | m :: rest => s.accepted m rest
  | _ => (s, none)

/-- One input: the session after it, and the menu that was drawn. -/
def next (s : Session) (input : Input) : Session × Option OpenMenu :=
  if s.crashed then (s, none)
  else if s.waiting then
    match s.menus with
    | [] => (s, none)
    | m :: rest => s.waitingNext m rest input
  else s.runningNext input

/-- Before the first menu. -/
def start : Session := ⟨[], false, false, false⟩

end Session

end Cromwell.Menu
