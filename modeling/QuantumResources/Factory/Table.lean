import QuantumResources.Factory

/-! Tables of factories that were worked out for particular physical error rates. -/

namespace QuantumResources.FactoryTable

def entry (name : String) (errorRate : Float) (width height qubits : Int) (cycles : Scalar)
    (statesPerRound : Int) : MagicStateFactory Scalar :=
  ⟨name, .real errorRate, some [width, height], .whole qubits, cycles, statesPerRound⟩

/-- Least space-time volume, for one error in a thousand. -/
def volumeThousandth : List (MagicStateFactory Scalar) := [
    entry "(15-to-1)_17,7,7" 4.5e-08 72 64 4620 (.real 42.6) 1,
    entry "(15-to-1)^6_15,5,5 x (20-to-4)_23,11,13" 1.4e-10 387 155 43300 (.whole 130) 4,
    entry "(15-to-1)^4_13,5,5 x (20-to-4)_27,13,15" 2.6e-11 382 142 46800 (.whole 157) 4,
    entry "(15-to-1)^6_11,5,5 x (15-to-1)_25,11,11" 2.7e-12 279 117 30700 (.real 82.5) 1,
    entry "(15-to-1)^6_13,5,5 x (15-to-1)_29,11,13" 3.3e-14 292 138 39100 (.real 97.5) 1,
    entry "(15-to-1)^6_17,7,7 x (15-to-1)_41,17,17" 4.5e-20 426 181 73400 (.whole 128) 1]

/-- Least space-time volume, for one error in ten thousand. -/
def volumeTenThousandth : List (MagicStateFactory Scalar) := [
    entry "(15-to-1)_7,3,3" 4.4e-08 30 27 810 (.real 18.1) 1,
    entry "(15-to-1)_9,3,3" 9.3e-10 38 30 1150 (.real 18.1) 1,
    entry "(15-to-1)_11,5,5" 1.9e-11 47 44 2070 (.whole 30) 1,
    entry "(15-to-1)^4_9,3,3 x (20-to-4)_15,7,9" 2.4e-15 221 96 16400 (.real 90.3) 4,
    entry "(15-to-1)^4_9,3,3 x (15-to-1)_25,9,9" 6.3e-25 193 96 18600 (.real 67.8) 1]

/-- Least number of qubits, for one error in a hundred thousand. -/
def footprintHundredThousandth : List (MagicStateFactory Scalar) := [
    entry "small footprint (15-to-1)_3,1,1" 1.8e-06 6 7 86 (.real 12.1) 1,
    entry "small footprint (15-to-1)_5,1,3" 7.8e-09 10 9 186 (.real 37.3) 1,
    entry "small footprint (15-to-1)_7,3,3" 5.5e-12 14 19 538 (.real 36.0) 1,
    entry "small footprint (15-to-1)_9,3,3" 3.2e-14 18 21 762 (.real 36.0) 1,
    entry "small footprint (15-to-1)_5,1,1 x (20-to-4)_11,3,5" 6.7e-15 37 22 1462 (.real 150.0) 1,
    entry "small footprint (15-to-1)_5,1,3 x (20-to-4)_11,3,5" 1.4e-16 43 22 1614 (.real 275.1) 1,
    entry "small footprint (15-to-1)_5,1,1 x (20-to-4)_11,5,5" 1.3e-17 51 22 1958 (.real 150.0) 1,
    entry "small footprint (15-to-1)_5,1,1 x (20-to-4)_13,5,5" 1.8e-20 51 22 2350 (.real 150.0) 1,
    entry "small footprint (15-to-1)_5,1,3 x (20-to-4)_15,5,5" 2.7e-22 55 30 2782 (.real 275.0) 1,
    entry "small footprint (15-to-1)_5,1,3 x (20-to-4)_15,5,5" 3.8e-23 63 30 3190 (.real 276.8) 1]

/-- Factories of small space-time volume. There are none for other error rates. -/
def smallVolume (physical : Scalar) : Calc (List (MagicStateFactory Scalar)) :=
  if physical.eq (.real 1e-3) then .ok volumeThousandth
  else if physical.eq (.real 1e-4) then .ok volumeTenThousandth
  else .error .conditionViolated

/-- Factories with few qubits. There are none for other error rates. -/
def smallFootprint (physical : Scalar) : Calc (List (MagicStateFactory Scalar)) :=
  if physical.eq (.real 1e-5) then .ok footprintHundredThousandth
  else .error .conditionViolated

end QuantumResources.FactoryTable
