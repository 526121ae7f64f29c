import JoseTokens.Curve.Ed25519
import JoseTokens.Curve.Secp256k1
import JoseTokens.Proofs.Number.Certificate

namespace JoseTokens

open Number

namespace Secp256k1

def entriesOfModulus : List LucasEntry := [
  ⟨13331831, 13, [2, 5, 971, 1373]⟩,
  ⟨173378833005251801, 6, [2, 2, 2, 5, 5, 2621, 24809, 13331831]⟩,
  ⟨22149492674086928081353, 5, [2, 2, 2, 3, 5323, 173378833005251801]⟩,
  ⟨132896956044521568488119, 6, [2, 3, 22149492674086928081353]⟩,
  ⟨96557, 2, [2, 2, 101, 239]⟩,
  ⟨1206781, 10, [2, 2, 3, 5, 20113]⟩,
  ⟨7240687, 3, [2, 3, 1206781]⟩,
  ⟨107590001, 3, [2, 2, 2, 2, 5, 5, 5, 5, 7, 29, 53]⟩,
  ⟨255515944373312847190720520512484175977, 3,
    [2, 2, 2, 7, 7, 11, 1627, 2657, 4423, 41201, 96557, 7240687, 107590001]⟩,
  ⟨205115282021455665897114700593932402728804164701536103180137503955397371, 10,
    [2, 3, 5, 29, 29, 31, 7723, 132896956044521568488119, 255515944373312847190720520512484175977]⟩,
  ⟨115792089237316195423570985008687907853269984665640564039457584007908834671663, 3,
    [2, 3, 7, 13441, 205115282021455665897114700593932402728804164701536103180137503955397371]⟩]

def entriesOfOrder : List LucasEntry := [
  ⟨85831, 3, [2, 3, 5, 2861]⟩,
  ⟨4681609, 23, [2, 2, 2, 3, 97, 2011]⟩,
  ⟨107361793816595537, 3, [2, 2, 2, 2, 16699, 85831, 4681609]⟩,
  ⟨120233, 3, [2, 2, 2, 7, 19, 113]⟩,
  ⟨44706919, 6, [2, 3, 797, 9349]⟩,
  ⟨174723607534414371449, 3, [2, 2, 2, 17, 59, 4051, 120233, 44706919]⟩,
  ⟨305873, 3, [2, 2, 2, 2, 7, 2731]⟩,
  ⟨545358713, 5, [2, 2, 2, 41, 59, 28181]⟩,
  ⟨1627771, 3, [2, 3, 5, 29, 1871]⟩,
  ⟨297159362677, 2, [2, 2, 3, 3, 11, 461, 1627771]⟩,
  ⟨29047611873442575647497758179, 2, [2, 293, 305873, 545358713, 297159362677]⟩,
  ⟨341948486974166000522343609283189, 2, [2, 2, 3, 3, 3, 109, 29047611873442575647497758179]⟩,
  ⟨115792089237316195423570985008687907852837564279074904382605163141518161494337, 7,
    [2, 2, 2, 2, 2, 2, 3, 149, 631, 107361793816595537, 174723607534414371449,
      341948486974166000522343609283189]⟩]

theorem prime_p : p.Prime :=
  have hcheck : checkEntries [] entriesOfModulus = true := by decide +kernel
  prime_of_lastEntry hcheck rfl

theorem prime_n : n.Prime :=
  have hcheck : checkEntries [] entriesOfOrder = true := by decide +kernel
  prime_of_lastEntry hcheck rfl

end Secp256k1

namespace Ed25519

def entriesOfModulus : List LucasEntry := [
  ⟨132049, 26, [2, 2, 2, 2, 3, 3, 7, 131]⟩,
  ⟨1923133, 2, [2, 2, 3, 43, 3727]⟩,
  ⟨430751, 17, [2, 5, 5, 5, 1723]⟩,
  ⟨31757755568855353, 10, [2, 2, 2, 3, 31, 107, 223, 4153, 430751]⟩,
  ⟨75707, 2, [2, 37853]⟩,
  ⟨569003, 2, [2, 7, 97, 419]⟩,
  ⟨2773320623, 5, [2, 2437, 569003]⟩,
  ⟨72106336199, 7, [2, 13, 2773320623]⟩,
  ⟨8574133, 2, [2, 2, 3, 7, 103, 991]⟩,
  ⟨1919519569386763, 2, [2, 3, 7, 19, 47, 47, 127, 8574133]⟩,
  ⟨75445702479781427272750846543864801, 7,
    [2, 2, 2, 2, 2, 3, 3, 5, 5, 75707, 72106336199, 1919519569386763]⟩,
  ⟨74058212732561358302231226437062788676166966415465897661863160754340907, 2,
    [2, 3, 353, 57467, 132049, 1923133, 31757755568855353, 75445702479781427272750846543864801]⟩,
  ⟨57896044618658097711785492504343953926634992332820282019728792003956564819949, 2,
    [2, 2, 3, 65147, 74058212732561358302231226437062788676166966415465897661863160754340907]⟩]

theorem prime_p : p.Prime :=
  have hcheck : checkEntries [] entriesOfModulus = true := by decide +kernel
  prime_of_lastEntry hcheck rfl

end Ed25519

end JoseTokens
