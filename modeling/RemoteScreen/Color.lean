/-!
The eight colours of a terminal cell, in the order of their SGR numbers.
-/

namespace RemoteScreen

/-- A colour of a glyph, or behind one. -/
inductive Color where
  | black | red | green | yellow | blue | magenta | cyan | white
  deriving DecidableEq, Inhabited

namespace Color

/-- Every colour, by index. -/
def all : List Color :=
  [black, red, green, yellow, blue, magenta, cyan, white]

/-- The SGR number of a colour, counted from 30 for foregrounds and from 40 for backgrounds. -/
def index : Color → Nat
  | black => 0
  | red => 1
  | green => 2
  | yellow => 3
  | blue => 4
  | magenta => 5
  | cyan => 6
  | white => 7

/-- The colour whose index is `n` modulo eight. -/
def ofIndex (n : Nat) : Color :=
  match n % 8 with
  | 0 => black
  | 1 => red
  | 2 => green
  | 3 => yellow
  | 4 => blue
  | 5 => magenta
  | 6 => cyan
  | _ => white

theorem index_lt (c : Color) : c.index < 8 := by
  cases c <;> decide

@[simp] theorem ofIndex_index (c : Color) : ofIndex c.index = c := by
  cases c <;> rfl

@[simp] theorem index_ofIndex (n : Nat) : (ofIndex n).index = n % 8 := by
  have h : n % 8 < 8 := Nat.mod_lt _ (by decide)
  unfold ofIndex
  generalize n % 8 = m at h
  match m, h with
  | 0, _ | 1, _ | 2, _ | 3, _ | 4, _ | 5, _ | 6, _ | 7, _ => rfl

/-- The name by which stored files know a colour. -/
def name : Color → String
  | black => "black"
  | red => "red"
  | green => "green"
  | yellow => "yellow"
  | blue => "blue"
  | magenta => "magenta"
  | cyan => "cyan"
  | white => "white"

/-- The name of a colour in descriptions of cells. -/
def title : Color → String
  | black => "Black"
  | red => "Red"
  | green => "Green"
  | yellow => "Yellow"
  | blue => "Blue"
  | magenta => "Magenta"
  | cyan => "Cyan"
  | white => "White"

/-- The colour that stored files know by a name. -/
def ofName? (s : String) : Option Color :=
  all.find? (·.name = s)

@[simp] theorem ofName?_name (c : Color) : ofName? c.name = some c := by
  cases c <;> decide +kernel

end Color
end RemoteScreen
