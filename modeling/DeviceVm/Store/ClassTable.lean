import DeviceVm.Store.Basic

/-!
The classes of a store by number. A class number is a suite number and the position of the class
in its suite; the dense number of a class counts through all suites and is never zero.
-/

namespace DeviceVm.Store

open Word

def suiteTable : Query UInt32 := do
  let table ← root .eeprom Root.suites
  if table != 0 then return table else root .rom Root.suites

def suiteClasses (suite : UInt32) : Read UInt32 := Memory.word suite 0

def classNumbered (number : UInt32) : Query UInt32 := do
  require (number != 0)
  let table ← suiteTable
  require (table != 0)
  let suite ← Memory.word table (number >>> 8).toInt32
  require (suite != 0)
  let k ← Memory.word (← suiteClasses suite) (number &&& 0xff).toInt32
  require (k != 0)
  require ((← Class.number k) == number)
  return k

def suiteSize (table i : UInt32) : Read UInt32 := do
  let suite ← Memory.word table i.toInt32
  if suite == 0 then return 0 else Header.elementCount (← suiteClasses suite)

def sumSizes (table : UInt32) : (n : Nat) → (i sum : UInt32) → Read UInt32
  | 0, _, sum => return sum
  | n + 1, i, sum => do
    sumSizes table n (i + 1) (← plus sum (← suiteSize table i))

def classCount : Query UInt32 := do
  let table ← suiteTable
  let count ← Header.elementCount table
  sumSizes table count.toNat 0 0

def denseNumber (k : UInt32) : Query UInt32 := do
  let number ← Class.number k
  require (number != 0)
  let table ← suiteTable
  sumSizes table (number >>> 8).toNat 0 (1 + (number &&& 0xff))

def classFrom (table : UInt32) : (n : Nat) → (i index : UInt32) → Read UInt32
  | 0, _, _ => throw .broken
  | n + 1, i, index => do
    let suite ← Memory.word table i.toInt32
    if suite == 0 then classFrom table n (i + 1) index
    else
      let classes ← suiteClasses suite
      let length ← Header.elementCount classes
      if index < length then Memory.word classes index.toInt32
      else classFrom table n (i + 1) (index - length)

def classOfDense (dense : UInt32) : Query UInt32 := do
  require (dense != 0)
  let table ← suiteTable
  let count ← Header.elementCount table
  classFrom table count.toNat 0 (dense - 1)

def isInstanceOfNumber (obj target : UInt32) : Read Bool := do
  Class.inherits (← Header.classOf obj) target

def isInstanceOf (obj k : UInt32) : Read Bool := do
  isInstanceOfNumber obj (← Class.number k)

end DeviceVm.Store
