/-!
Stands for the generator of the random-number library that nodes draw from, whose words are not
reproduced. Nothing depends on how a generator makes its words, so what is proved of trees holds for all
generators.
-/

namespace BehaviorTree

/-- All that a generator has to give: the word that it draws next, the words after each draw, `false`, and
those of the generators that are split off from it, `true`. -/
structure Random where
  word : List Bool → UInt64

namespace Random

def next (random : Random) : UInt64 × Random :=
  (random.word [], ⟨fun path => random.word (false :: path)⟩)

/-- Splits off a generator of its own. -/
def fork (random : Random) : Random × Random :=
  (⟨fun path => random.word (true :: path)⟩, ⟨fun path => random.word (false :: path)⟩)

/-- A number between `low` and `high`, both included, in steps of `2 ^ -24` of their distance. -/
def float32 (random : Random) (low high : Float32) : Float32 × Random :=
  let (word, random) := random.next
  let unit := (word >>> 40).toFloat32 / (0xffffff : UInt64).toFloat32
  (low + (high - low) * unit, random)

def float (random : Random) (low high : Float) : Float × Random :=
  let (word, random) := random.next
  let unit := (word >>> 11).toFloat / (0x1fffffffffffff : UInt64).toFloat
  (low + (high - low) * unit, random)

def scramble (word : UInt64) : UInt64 :=
  let word := (word ^^^ (word >>> 30)) * 0xbf58476d1ce4e5b9
  let word := (word ^^^ (word >>> 27)) * 0x94d049bb133111eb
  word ^^^ (word >>> 31)

/-- The state of a generator that adds a fixed odd number with each draw. One that is split off goes on
from a drawn word. -/
def seedAfter : List Bool → UInt64 → UInt64
  | [], seed => seed
  | forked :: path, seed =>
    let state := seed + 0x9e3779b97f4a7c15
    seedAfter path (if forked then scramble state else state)

def ofSeed (seed : UInt64) : Random where
  word path := scramble (seedAfter path seed + 0x9e3779b97f4a7c15)

end Random

end BehaviorTree
