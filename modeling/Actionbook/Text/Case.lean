import Actionbook.Text.CodePoints

/-!
# Letter case

Full case mapping: a character may become several, and a capital sigma at the end of a word becomes
the final small sigma. Tables as of version 14 of the character database.
-/

namespace Actionbook.Text

/-- Small letters of characters beyond ASCII. -/
def lowerTable : CharMap :=
  let map : CharMap := ⟨∅⟩
  let map := map.addRuns true
    ["c0.17.1.e0 18.7.1.f8 28.18.2.101 32.3.2.133 7.8.2.13a 11.17.2.14b 2f.3.2.17a 27.3.2.1a1 ",
     "2b.9.2.1cc 13.9.2.1df 1a.14.2.1f9 2a.9.2.223 24.5.2.247 142.3.1.3ad 9.11.1.3b1 12.9.1.3c3 ",
     "35.c.2.3d9 25.3.1.37b 3.10.1.450 10.20.1.430 50.11.2.461 2a.1b.2.48b 37.7.2.4c2 f.30.2.4d1 ",
     "61.26.1.561 b6f.26.1.2d00 300.50.1.ab70 50.6.1.13f8 8a0.2b.1.10d0 2d.3.1.10fd 143.4b.2.1e01 ",
     "a0.30.2.1ea1 68.8.1.1f00 10.6.1.1f10 10.8.1.1f20 10.8.1.1f30 10.6.1.1f40 11.4.2.1f51 ",
     "f.8.1.1f60 20.8.1.1f80 10.8.1.1f90 10.8.1.1fa0 20.4.1.1f72 198.10.1.2170 356.1a.1.24d0 ",
     "74a.30.1.2c30 67.3.2.2c68 19.32.2.2c81 79c0.17.2.a641 40.e.2.a681 a2.7.2.a723 10.1f.2.a733 ",
     "4c.5.2.a77f 18.a.2.a797 1e.8.2.a7b5 576d.1a.1.ff41 4df.28.1.10428 b0.24.1.104d8 ",
     "c0.13.2.10597 1.5.2.10598 c.7.2.105a4 10.3.2.105b4 6f3.33.1.10cc0 c20.20.1.118c0 ",
     "55a0.20.1.16e60 7ac0.22.1.1e922"]
  map.addSingles
    ["130.69.307 48.ff 9.253 1.183 2.185 2.254 1.188 2.256 1.257 1.18c 3.1dd 1.259 1.25b 1.192 ",
     "2.260 1.263 2.269 1.268 1.199 4.26f 1.272 2.275 7.280 1.1a8 2.283 3.1ad 2.288 1.1b0 2.28a ",
     "1.28b 1.1b4 2.1b6 2.292 1.1b9 4.1bd 8.1c6 1.1c6 2.1c9 1.1c9 2.1cc 27.1f3 1.1f3 2.1f5 2.195 ",
     "1.1bf 29.19e 1a.2c65 1.23c 2.19a 1.2c66 3.242 2.180 1.289 1.28c 12b.371 2.373 4.377 9.3f3 ",
     "7.3ac 6.3cc 2.3cd 1.3ce 40.3d7 25.3b8 3.3f8 2.3f2 1.3fb c6.4cf c07.2d27 6.2d2d dd1.df ",
     "11a.1fb0 1.1fb1 1.1f70 1.1f71 1.1fb3 10.1fc3 c.1fd0 1.1fd1 1.1f76 1.1f77 d.1fe0 1.1fe1 ",
     "1.1f7a 1.1f7b 1.1fe5 c.1f78 1.1f79 1.1f7c 1.1f7d 1.1ff3 12a.3c9 4.6b 1.e5 7.214e 51.2184 ",
     "add.2c61 2.26b 1.1d7d 1.27d 9.251 1.271 1.250 1.252 2.2c73 3.2c76 9.23f 1.240 6c.2cec 2.2cee ",
     "5.2cf3 7a87.a77a 2.a77c 2.1d79 e.a78c 2.265 3.a791 2.a793 18.266 1.25c 1.261 1.26c 1.26a ",
     "2.29e 1.287 1.29d 1.ab53 11.a794 1.282 1.1d8e 1.a7c8 2.a7ca 7.a7d1 6.a7d7 2.a7d9 1d.a7f6 ",
     "5da0.105bc"]

/-- Title case of characters beyond ASCII. -/
def titleTable : CharMap :=
  let map : CharMap := ⟨∅⟩
  let map := map.addRuns true
    ["e0.17.1.c0 18.7.1.d8 9.18.2.100 32.3.2.132 7.8.2.139 11.17.2.14a 2f.3.2.179 27.3.2.1a0 ",
     "2b.9.2.1cb 13.9.2.1de 1a.14.2.1f8 2a.9.2.222 24.5.2.246 134.3.1.3fd 32.3.1.388 4.11.1.391 ",
     "12.9.1.3a3 16.c.2.3d8 57.20.1.410 20.10.1.400 11.11.2.460 2a.1b.2.48a 37.7.2.4c1 f.30.2.4d0 ",
     "90.26.1.531 e97.6.1.13f0 a09.4b.2.1e00 a0.30.2.1ea0 5f.8.1.1f08 10.6.1.1f18 10.8.1.1f28 ",
     "10.8.1.1f38 10.6.1.1f48 11.4.2.1f59 f.8.1.1f68 12.4.1.1fc8 e.8.1.1f88 10.8.1.1f98 ",
     "10.8.1.1fa8 1d0.10.1.2160 360.1a.1.24b6 760.30.1.2c00 38.3.2.2c67 19.32.2.2c80 7f.26.1.10a0 ",
     "7941.17.2.a640 40.e.2.a680 a2.7.2.a722 10.1f.2.a732 4c.5.2.a77e 18.a.2.a796 1e.8.2.a7b4 ",
     "3bb.50.1.13a0 53d1.1a.1.ff21 4e7.28.1.10400 b0.24.1.104b0 bf.13.2.10570 1.5.2.10571 ",
     "c.7.2.1057d 10.3.2.1058d 70c.33.1.10c80 c00.20.1.118a0 55a0.20.1.16e40 7ac2.22.1.1e900"]
  map.addSingles
    ["b5.39c 2a.53.73 20.178 32.49 18.2bc.4e 36.53 1.243 3.182 2.184 3.187 4.18b 6.191 3.1f6 4.198 ",
     "1.23d 4.220 a.1a7 5.1ac 3.1af 4.1b3 2.1b5 3.1b8 4.1bc 2.1f7 5.1c5 2.1c5 1.1c8 2.1c8 1.1cb ",
     "13.18e 13.4a.30c 1.1f2 2.1f2 2.1f4 47.23b 3.2c7e 1.2c7f 2.241 e.2c6f 1.2c6d 1.2c70 1.181 ",
     "1.186 2.189 1.18a 2.18f 2.190 1.a7ab 4.193 1.a7ac 2.194 2.a78d 1.a7aa 2.197 1.196 1.a7ae ",
     "1.2c62 1.a7ad 3.19c 2.2c6e 1.19d 3.19f 8.2c64 3.1a6 2.a7c5 1.1a9 4.a7b1 1.1ae 1.244 1.1b1 ",
     "1.1b2 1.245 6.1b7 b.a7b2 1.a7b0 a7.399 2c.370 2.372 4.376 19.399.308.301 1c.386 ",
     "4.3a5.308.301 12.3a3 a.38c 1.38e 1.38f 2.392 1.398 4.3a6 1.3a0 1.3cf 19.39a 1.3a1 1.3f9 ",
     "1.37f 2.395 3.3f7 3.3fa d4.4c0 b8.535.582 16f9.412 1.414 1.41e 1.421 1.422 1.422 1.42a 1.462 ",
     "1.a64a f1.a77d 4.2c63 11.a7c6 108.48.331 1.54.308 1.57.30a 1.59.30a 1.41.2be 1.1e60 ",
     "b5.3a5.313 2.3a5.313.300 2.3a5.313.301 2.3a5.313.342 1a.1fba 1.1fbb 5.1fda 1.1fdb 1.1ff8 ",
     "1.1ff9 1.1fea 1.1feb 1.1ffa 1.1ffb 33.1fb8 1.1fb9 1.1fba.345 1.1fbc 1.386.345 2.391.342 ",
     "1.391.342.345 7.399 4.1fca.345 1.1fcc 1.389.345 2.397.342 1.397.342.345 9.1fd8 1.1fd9 ",
     "1.399.308.300 1.399.308.301 3.399.342 1.399.308.342 9.1fe8 1.1fe9 1.3a5.308.300 ",
     "1.3a5.308.301 1.3a1.313 1.1fec 1.3a5.342 1.3a5.308.342 b.1ffa.345 1.1ffc 1.38f.345 2.3a9.342 ",
     "1.3a9.342.345 157.2132 36.2183 add.2c60 4.23a 1.23e d.2c72 3.2c75 76.2ceb 2.2ced 5.2cf2 ",
     "34.10c7 6.10cd 7a4d.a779 2.a77b 10.a78b 5.a790 2.a792 1.a7c4 34.a7c7 2.a7c9 7.a7d0 6.a7d6 ",
     "2.a7d8 1d.a7f5 35d.a7b3 4fad.46.66 1.46.69 1.46.6c 1.46.66.69 1.46.66.6c 1.53.74 1.53.74 ",
     "d.544.576 1.544.565 1.544.56b 1.54e.576 1.544.56d aa5.10595"]

/-- Characters that are skipped when the surroundings of a sigma are judged. -/
def ignorableTable : CodePoints := .ofLines
  ["27 6 b 23 1 47 4 1 4 2+1 1f7+bf 4+1 4 9+1 1 fb+6 cf 5 31+2c 1 1+1 1+1 1 2c b+5 a+a 1 23 a+14 ",
   "10 65+7 1+9 1+3 21 1 1e+1a 5b+a 3a+a 4 2 18+17 2b+2 2c 7+1 6+7 29+39 37 1 4+7 4 3+6 a+1 d f ",
   "3a 4+3 8 14+1 1a 2+1 39 4+1 4+1 2+2 3 1e+1 3 b+1 39 4+4 1+1 4 14+1 16+5 1 3a 2 1+3 8 7+1 b+1 ",
   "1e 3d c 32 3 37 1+2 5+2 1+3 7+1 b+1 1d 3a 2 6 5+1 14+1 1c+1 39+1 4+3 8 14+1 1d 48 7+2 1 5a ",
   "2+6 b+8 62 2+8 9 1+5 4a+1 1b 1 1 37+d 1+4 1+1 5+a 1+23 9 66+3 1+5 1+1 2+1 19+1 4+2 10+3 d ",
   "2+1 6 f 5e 260+2 3b2+2 1d+1 1e+1 1e+1 40+1 1+6 8 2+a 3 5 2d+4 33 41+1 22 76+2 4+1 9 6+2 db+1 ",
   "2 3a 1+6 1 1 2+7 6+9 2 27 8+1e 31+3 30 1+4 1 5 28+8 c+1 20+3 2+1 1+2 38 1+1 3 1+2 3a+7 2+1 ",
   "40+5 52+2 1+c 1+6 4 6 3+1 32+3e d 22+64 1bd 1+2 b+2 d+2 d+2 d+1 c+4 8+1 a 2 2+4 31+4 1+9 1 d ",
   "10+c 33+20 b8b+1 71+2 7d f 60+1f 2f 1d5 24+3 3+4 5 5d+5 5d+2 6f16 4e2+5 10e 62+3 1+9 1 1c+3 ",
   "50+1 e+21 4e 17+2 67+2 3+1 8 3 4 19+1 5 97+1 1a+11 d 26+7 19+a 2e+2 30 2+3 2+1 11 15+1 42+5 ",
   "2+1 2+1 c 8 23 b 33 1+2 2+1 5+1 1 1b e+1 5+1 1 64+4 9+2 79 2 4 4f30 93+10 23d+f 3 c+f 22 2 ",
   "a9 7 6 b 23 1 2f 2d+1 43 15+2 201 e2 95+4 405+5 1+29 1+8 246+2 1+1 5+3 28+2 4 a5+1 23d+3 ",
   "183+1 99+a 31+3 7b 36+e 29 2+1 a+2 31+3 2+1 2 4 a 32+2 24+4 1+7 3e c+1 34+8 a+3 2 5f+2 2 1+1 ",
   "6 a0 3+7 15+1 39+1 3 25+6 3+4 c3+7 2+2 1 17 54+5 1 4+1 1+1 ee+3 6+1 1+1 1b+1 55+7 2 1+1 6a 1 ",
   "2+5 1 65+2 2+3 1+4 103+8 1+1 100+1 1 4 90+3 2+1 4 20+9 28+5 2+3 8 9+5 2+2 2e+c 1+1 196+6 1+5 ",
   "1 52+15 2+6 1+1 1+1 7a+5 3 1+1 1+6 1 48+1 3 1 15b+1 153b+8 36b7+4 3b+6 9+3 40b 3f+10 40+1 ",
   "1+1 400b+3 1+6 1+1 c9e+1 1+3 125c+2d 2+16 220+2 9+f 2+6 1e+3 94+2 7bb+36 4+31 8 e 16+4 1+e ",
   "550+6 1+10 2+6 1+1 1+4 105+d 170 3d+3 5e0+6 6d+7 aaf+4 c0c01 1e+5f 80+ef"]

/-- Characters with case among those that are not skipped. -/
def casedTable : CodePoints := .ofLines
  ["41+19 6+19 2f a 4 5+16 1+1e 1+c2 1+3 4+cf 1+1a c0+3 2+1 3+2 1 6 1+2 1 1+13 1+52 1+8a 8+a5 ",
   "1+25 9+28 b17+25 1 5 2+2a 2+2 2a0+55 2+5 882+8 7+2a 2+2 40+2b 3f+c 1+21 65+115 2+5 2+25 2+5 ",
   "2+7 1 1 1 1+1e 2+34 1+6 1 3+2 1+6 3+3 2+5 4+c 5+2 1+6 105 4 2+9 1 3+4 6 1 1 1+3 1+5 4 2+3 ",
   "5+4 4 11+1f 3+1 331+33 716+7b 2+66 6+3 3+1 c+25 1 5 7912+2d 12+1b 86+4d 1+16 3+3 1+3a 5+1 1 ",
   "1+4 1b+1 3 335+2a 5+8 7+4f 4f40+6 c+4 409+19 6+19 4a5+4f 60+23 4+23 74+a 1+e 1+6 1+1 1+a 1+e ",
   "1+6 1+1 6c3+32 d+32 bad+3f 5560+3f 6580+54 1+46 1+1 2 2+1 2+3 1+b 1 1+6 1+40 1+3 2+7 1+6 ",
   "1+1b 1+3 1+4 1 3+6 1+153 2+18 1+18 1+1e 1+18 1+1e 1+18 1+1e 1+18 1+1e 1+18 1+7 734+9 1+13 ",
   "9e1+43 7ec+19 6+19 6+19"]

/-- Whether a list starts, after characters that are skipped, with one that has case. -/
def startsCased (s : List Char) : Bool :=
  match s.dropWhile ignorableTable.contains with
  | [] => false
  | c :: _ => casedTable.contains c

/-- The small letters of a character that stands between `before` (nearest first) and `after`. A
capital sigma is final if a letter precedes it and none follows. -/
def lowerChar (before : List Char) (c : Char) (after : List Char) : List Char :=
  if c.toNat < 128 then [c.toLower]
  else if c = 'Σ' then [if startsCased before && !startsCased after then 'ς' else 'σ']
  else lowerTable.apply c

/-- Small letters for a text that follows `before` (nearest first). -/
def lowerAfter (before : List Char) : List Char → List Char
  | [] => []
  | c :: r => lowerChar before c r ++ lowerAfter (c :: before) r

/-- The text in small letters. -/
def lower (s : List Char) : List Char := lowerAfter [] s

def titleChar (c : Char) : List Char :=
  if c.toNat < 128 then [c.toUpper] else titleTable.apply c

/-- The text with its first character in title case and the others in small letters. -/
def capitalize : List Char → List Char
  | [] => []
  | c :: r => titleChar c ++ lowerAfter [c] r

/-- The text in small letters. -/
def lowercase (s : String) : String := String.ofList (lower s.toList)

/-- The text with its first character in title case and the others in small letters. -/
def capitalized (s : String) : String := String.ofList (capitalize s.toList)

end Actionbook.Text
