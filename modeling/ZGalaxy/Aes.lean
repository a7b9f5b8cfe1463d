/-
ZGalaxy/Aes.lean

The software implementation of AES, by tables.

A table of 256 words holds, for each byte, its substitute in all places of a column and mixed; the
other three tables of a round are rotations of it.  So a round of the source is sixteen lookups and
exclusive ors of words.  `word` packs a column into a word, most significant byte first, and every
step of the source is a step of the cipher on columns: a lookup (`te0_byte`, `td0_byte`, checked for
all bytes), a rotation (`ror32_word`), a mask (`and_word`).

The source deciphers in the order of enciphering, under the round keys in reverse order, of which all
but the outer two are mixed backwards (`dk`).

Main results: `encryptSW_eq`, the source computes AES with keys of 256 bits; `decryptSW_eq`, and its
inverse; and `aes_roundtrip`, for every key and every block.
-/
import ZGalaxy.Bytes
import ZGalaxy.Rijndael
import ZGalaxy.Words

namespace ZGalaxy

open ByteList

namespace Aes

open Rijndael (Column State Byte)

/-! ### The tables of the source -/

/-- `Te0`. -/
def te0Table : List (BitVec 32) := [
  0xc66363a5, 0xf87c7c84, 0xee777799, 0xf67b7b8d, 0xfff2f20d, 0xd66b6bbd, 0xde6f6fb1, 0x91c5c554,
  0x60303050, 0x02010103, 0xce6767a9, 0x562b2b7d, 0xe7fefe19, 0xb5d7d762, 0x4dababe6, 0xec76769a,
  0x8fcaca45, 0x1f82829d, 0x89c9c940, 0xfa7d7d87, 0xeffafa15, 0xb25959eb, 0x8e4747c9, 0xfbf0f00b,
  0x41adadec, 0xb3d4d467, 0x5fa2a2fd, 0x45afafea, 0x239c9cbf, 0x53a4a4f7, 0xe4727296, 0x9bc0c05b,
  0x75b7b7c2, 0xe1fdfd1c, 0x3d9393ae, 0x4c26266a, 0x6c36365a, 0x7e3f3f41, 0xf5f7f702, 0x83cccc4f,
  0x6834345c, 0x51a5a5f4, 0xd1e5e534, 0xf9f1f108, 0xe2717193, 0xabd8d873, 0x62313153, 0x2a15153f,
  0x0804040c, 0x95c7c752, 0x46232365, 0x9dc3c35e, 0x30181828, 0x379696a1, 0x0a05050f, 0x2f9a9ab5,
  0x0e070709, 0x24121236, 0x1b80809b, 0xdfe2e23d, 0xcdebeb26, 0x4e272769, 0x7fb2b2cd, 0xea75759f,
  0x1209091b, 0x1d83839e, 0x582c2c74, 0x341a1a2e, 0x361b1b2d, 0xdc6e6eb2, 0xb45a5aee, 0x5ba0a0fb,
  0xa45252f6, 0x763b3b4d, 0xb7d6d661, 0x7db3b3ce, 0x5229297b, 0xdde3e33e, 0x5e2f2f71, 0x13848497,
  0xa65353f5, 0xb9d1d168, 0x00000000, 0xc1eded2c, 0x40202060, 0xe3fcfc1f, 0x79b1b1c8, 0xb65b5bed,
  0xd46a6abe, 0x8dcbcb46, 0x67bebed9, 0x7239394b, 0x944a4ade, 0x984c4cd4, 0xb05858e8, 0x85cfcf4a,
  0xbbd0d06b, 0xc5efef2a, 0x4faaaae5, 0xedfbfb16, 0x864343c5, 0x9a4d4dd7, 0x66333355, 0x11858594,
  0x8a4545cf, 0xe9f9f910, 0x04020206, 0xfe7f7f81, 0xa05050f0, 0x783c3c44, 0x259f9fba, 0x4ba8a8e3,
  0xa25151f3, 0x5da3a3fe, 0x804040c0, 0x058f8f8a, 0x3f9292ad, 0x219d9dbc, 0x70383848, 0xf1f5f504,
  0x63bcbcdf, 0x77b6b6c1, 0xafdada75, 0x42212163, 0x20101030, 0xe5ffff1a, 0xfdf3f30e, 0xbfd2d26d,
  0x81cdcd4c, 0x180c0c14, 0x26131335, 0xc3ecec2f, 0xbe5f5fe1, 0x359797a2, 0x884444cc, 0x2e171739,
  0x93c4c457, 0x55a7a7f2, 0xfc7e7e82, 0x7a3d3d47, 0xc86464ac, 0xba5d5de7, 0x3219192b, 0xe6737395,
  0xc06060a0, 0x19818198, 0x9e4f4fd1, 0xa3dcdc7f, 0x44222266, 0x542a2a7e, 0x3b9090ab, 0x0b888883,
  0x8c4646ca, 0xc7eeee29, 0x6bb8b8d3, 0x2814143c, 0xa7dede79, 0xbc5e5ee2, 0x160b0b1d, 0xaddbdb76,
  0xdbe0e03b, 0x64323256, 0x743a3a4e, 0x140a0a1e, 0x924949db, 0x0c06060a, 0x4824246c, 0xb85c5ce4,
  0x9fc2c25d, 0xbdd3d36e, 0x43acacef, 0xc46262a6, 0x399191a8, 0x319595a4, 0xd3e4e437, 0xf279798b,
  0xd5e7e732, 0x8bc8c843, 0x6e373759, 0xda6d6db7, 0x018d8d8c, 0xb1d5d564, 0x9c4e4ed2, 0x49a9a9e0,
  0xd86c6cb4, 0xac5656fa, 0xf3f4f407, 0xcfeaea25, 0xca6565af, 0xf47a7a8e, 0x47aeaee9, 0x10080818,
  0x6fbabad5, 0xf0787888, 0x4a25256f, 0x5c2e2e72, 0x381c1c24, 0x57a6a6f1, 0x73b4b4c7, 0x97c6c651,
  0xcbe8e823, 0xa1dddd7c, 0xe874749c, 0x3e1f1f21, 0x964b4bdd, 0x61bdbddc, 0x0d8b8b86, 0x0f8a8a85,
  0xe0707090, 0x7c3e3e42, 0x71b5b5c4, 0xcc6666aa, 0x904848d8, 0x06030305, 0xf7f6f601, 0x1c0e0e12,
  0xc26161a3, 0x6a35355f, 0xae5757f9, 0x69b9b9d0, 0x17868691, 0x99c1c158, 0x3a1d1d27, 0x279e9eb9,
  0xd9e1e138, 0xebf8f813, 0x2b9898b3, 0x22111133, 0xd26969bb, 0xa9d9d970, 0x078e8e89, 0x339494a7,
  0x2d9b9bb6, 0x3c1e1e22, 0x15878792, 0xc9e9e920, 0x87cece49, 0xaa5555ff, 0x50282878, 0xa5dfdf7a,
  0x038c8c8f, 0x59a1a1f8, 0x09898980, 0x1a0d0d17, 0x65bfbfda, 0xd7e6e631, 0x844242c6, 0xd06868b8,
  0x824141c3, 0x299999b0, 0x5a2d2d77, 0x1e0f0f11, 0x7bb0b0cb, 0xa85454fc, 0x6dbbbbd6, 0x2c16163a]

/-- `Te4`. -/
def te4Table : List (BitVec 32) := [
  0x63636363, 0x7c7c7c7c, 0x77777777, 0x7b7b7b7b, 0xf2f2f2f2, 0x6b6b6b6b, 0x6f6f6f6f, 0xc5c5c5c5,
  0x30303030, 0x01010101, 0x67676767, 0x2b2b2b2b, 0xfefefefe, 0xd7d7d7d7, 0xabababab, 0x76767676,
  0xcacacaca, 0x82828282, 0xc9c9c9c9, 0x7d7d7d7d, 0xfafafafa, 0x59595959, 0x47474747, 0xf0f0f0f0,
  0xadadadad, 0xd4d4d4d4, 0xa2a2a2a2, 0xafafafaf, 0x9c9c9c9c, 0xa4a4a4a4, 0x72727272, 0xc0c0c0c0,
  0xb7b7b7b7, 0xfdfdfdfd, 0x93939393, 0x26262626, 0x36363636, 0x3f3f3f3f, 0xf7f7f7f7, 0xcccccccc,
  0x34343434, 0xa5a5a5a5, 0xe5e5e5e5, 0xf1f1f1f1, 0x71717171, 0xd8d8d8d8, 0x31313131, 0x15151515,
  0x04040404, 0xc7c7c7c7, 0x23232323, 0xc3c3c3c3, 0x18181818, 0x96969696, 0x05050505, 0x9a9a9a9a,
  0x07070707, 0x12121212, 0x80808080, 0xe2e2e2e2, 0xebebebeb, 0x27272727, 0xb2b2b2b2, 0x75757575,
  0x09090909, 0x83838383, 0x2c2c2c2c, 0x1a1a1a1a, 0x1b1b1b1b, 0x6e6e6e6e, 0x5a5a5a5a, 0xa0a0a0a0,
  0x52525252, 0x3b3b3b3b, 0xd6d6d6d6, 0xb3b3b3b3, 0x29292929, 0xe3e3e3e3, 0x2f2f2f2f, 0x84848484,
  0x53535353, 0xd1d1d1d1, 0x00000000, 0xedededed, 0x20202020, 0xfcfcfcfc, 0xb1b1b1b1, 0x5b5b5b5b,
  0x6a6a6a6a, 0xcbcbcbcb, 0xbebebebe, 0x39393939, 0x4a4a4a4a, 0x4c4c4c4c, 0x58585858, 0xcfcfcfcf,
  0xd0d0d0d0, 0xefefefef, 0xaaaaaaaa, 0xfbfbfbfb, 0x43434343, 0x4d4d4d4d, 0x33333333, 0x85858585,
  0x45454545, 0xf9f9f9f9, 0x02020202, 0x7f7f7f7f, 0x50505050, 0x3c3c3c3c, 0x9f9f9f9f, 0xa8a8a8a8,
  0x51515151, 0xa3a3a3a3, 0x40404040, 0x8f8f8f8f, 0x92929292, 0x9d9d9d9d, 0x38383838, 0xf5f5f5f5,
  0xbcbcbcbc, 0xb6b6b6b6, 0xdadadada, 0x21212121, 0x10101010, 0xffffffff, 0xf3f3f3f3, 0xd2d2d2d2,
  0xcdcdcdcd, 0x0c0c0c0c, 0x13131313, 0xecececec, 0x5f5f5f5f, 0x97979797, 0x44444444, 0x17171717,
  0xc4c4c4c4, 0xa7a7a7a7, 0x7e7e7e7e, 0x3d3d3d3d, 0x64646464, 0x5d5d5d5d, 0x19191919, 0x73737373,
  0x60606060, 0x81818181, 0x4f4f4f4f, 0xdcdcdcdc, 0x22222222, 0x2a2a2a2a, 0x90909090, 0x88888888,
  0x46464646, 0xeeeeeeee, 0xb8b8b8b8, 0x14141414, 0xdededede, 0x5e5e5e5e, 0x0b0b0b0b, 0xdbdbdbdb,
  0xe0e0e0e0, 0x32323232, 0x3a3a3a3a, 0x0a0a0a0a, 0x49494949, 0x06060606, 0x24242424, 0x5c5c5c5c,
  0xc2c2c2c2, 0xd3d3d3d3, 0xacacacac, 0x62626262, 0x91919191, 0x95959595, 0xe4e4e4e4, 0x79797979,
  0xe7e7e7e7, 0xc8c8c8c8, 0x37373737, 0x6d6d6d6d, 0x8d8d8d8d, 0xd5d5d5d5, 0x4e4e4e4e, 0xa9a9a9a9,
  0x6c6c6c6c, 0x56565656, 0xf4f4f4f4, 0xeaeaeaea, 0x65656565, 0x7a7a7a7a, 0xaeaeaeae, 0x08080808,
  0xbabababa, 0x78787878, 0x25252525, 0x2e2e2e2e, 0x1c1c1c1c, 0xa6a6a6a6, 0xb4b4b4b4, 0xc6c6c6c6,
  0xe8e8e8e8, 0xdddddddd, 0x74747474, 0x1f1f1f1f, 0x4b4b4b4b, 0xbdbdbdbd, 0x8b8b8b8b, 0x8a8a8a8a,
  0x70707070, 0x3e3e3e3e, 0xb5b5b5b5, 0x66666666, 0x48484848, 0x03030303, 0xf6f6f6f6, 0x0e0e0e0e,
  0x61616161, 0x35353535, 0x57575757, 0xb9b9b9b9, 0x86868686, 0xc1c1c1c1, 0x1d1d1d1d, 0x9e9e9e9e,
  0xe1e1e1e1, 0xf8f8f8f8, 0x98989898, 0x11111111, 0x69696969, 0xd9d9d9d9, 0x8e8e8e8e, 0x94949494,
  0x9b9b9b9b, 0x1e1e1e1e, 0x87878787, 0xe9e9e9e9, 0xcececece, 0x55555555, 0x28282828, 0xdfdfdfdf,
  0x8c8c8c8c, 0xa1a1a1a1, 0x89898989, 0x0d0d0d0d, 0xbfbfbfbf, 0xe6e6e6e6, 0x42424242, 0x68686868,
  0x41414141, 0x99999999, 0x2d2d2d2d, 0x0f0f0f0f, 0xb0b0b0b0, 0x54545454, 0xbbbbbbbb, 0x16161616]

/-- `Td0`. -/
def td0Table : List (BitVec 32) := [
  0x51f4a750, 0x7e416553, 0x1a17a4c3, 0x3a275e96, 0x3bab6bcb, 0x1f9d45f1, 0xacfa58ab, 0x4be30393,
  0x2030fa55, 0xad766df6, 0x88cc7691, 0xf5024c25, 0x4fe5d7fc, 0xc52acbd7, 0x26354480, 0xb562a38f,
  0xdeb15a49, 0x25ba1b67, 0x45ea0e98, 0x5dfec0e1, 0xc32f7502, 0x814cf012, 0x8d4697a3, 0x6bd3f9c6,
  0x038f5fe7, 0x15929c95, 0xbf6d7aeb, 0x955259da, 0xd4be832d, 0x587421d3, 0x49e06929, 0x8ec9c844,
  0x75c2896a, 0xf48e7978, 0x99583e6b, 0x27b971dd, 0xbee14fb6, 0xf088ad17, 0xc920ac66, 0x7dce3ab4,
  0x63df4a18, 0xe51a3182, 0x97513360, 0x62537f45, 0xb16477e0, 0xbb6bae84, 0xfe81a01c, 0xf9082b94,
  0x70486858, 0x8f45fd19, 0x94de6c87, 0x527bf8b7, 0xab73d323, 0x724b02e2, 0xe31f8f57, 0x6655ab2a,
  0xb2eb2807, 0x2fb5c203, 0x86c57b9a, 0xd33708a5, 0x302887f2, 0x23bfa5b2, 0x02036aba, 0xed16825c,
  0x8acf1c2b, 0xa779b492, 0xf307f2f0, 0x4e69e2a1, 0x65daf4cd, 0x0605bed5, 0xd134621f, 0xc4a6fe8a,
  0x342e539d, 0xa2f355a0, 0x058ae132, 0xa4f6eb75, 0x0b83ec39, 0x4060efaa, 0x5e719f06, 0xbd6e1051,
  0x3e218af9, 0x96dd063d, 0xdd3e05ae, 0x4de6bd46, 0x91548db5, 0x71c45d05, 0x0406d46f, 0x605015ff,
  0x1998fb24, 0xd6bde997, 0x894043cc, 0x67d99e77, 0xb0e842bd, 0x07898b88, 0xe7195b38, 0x79c8eedb,
  0xa17c0a47, 0x7c420fe9, 0xf8841ec9, 0x00000000, 0x09808683, 0x322bed48, 0x1e1170ac, 0x6c5a724e,
  0xfd0efffb, 0x0f853856, 0x3daed51e, 0x362d3927, 0x0a0fd964, 0x685ca621, 0x9b5b54d1, 0x24362e3a,
  0x0c0a67b1, 0x9357e70f, 0xb4ee96d2, 0x1b9b919e, 0x80c0c54f, 0x61dc20a2, 0x5a774b69, 0x1c121a16,
  0xe293ba0a, 0xc0a02ae5, 0x3c22e043, 0x121b171d, 0x0e090d0b, 0xf28bc7ad, 0x2db6a8b9, 0x141ea9c8,
  0x57f11985, 0xaf75074c, 0xee99ddbb, 0xa37f60fd, 0xf701269f, 0x5c72f5bc, 0x44663bc5, 0x5bfb7e34,
  0x8b432976, 0xcb23c6dc, 0xb6edfc68, 0xb8e4f163, 0xd731dcca, 0x42638510, 0x13972240, 0x84c61120,
  0x854a247d, 0xd2bb3df8, 0xaef93211, 0xc729a16d, 0x1d9e2f4b, 0xdcb230f3, 0x0d8652ec, 0x77c1e3d0,
  0x2bb3166c, 0xa970b999, 0x119448fa, 0x47e96422, 0xa8fc8cc4, 0xa0f03f1a, 0x567d2cd8, 0x223390ef,
  0x87494ec7, 0xd938d1c1, 0x8ccaa2fe, 0x98d40b36, 0xa6f581cf, 0xa57ade28, 0xdab78e26, 0x3fadbfa4,
  0x2c3a9de4, 0x5078920d, 0x6a5fcc9b, 0x547e4662, 0xf68d13c2, 0x90d8b8e8, 0x2e39f75e, 0x82c3aff5,
  0x9f5d80be, 0x69d0937c, 0x6fd52da9, 0xcf2512b3, 0xc8ac993b, 0x10187da7, 0xe89c636e, 0xdb3bbb7b,
  0xcd267809, 0x6e5918f4, 0xec9ab701, 0x834f9aa8, 0xe6956e65, 0xaaffe67e, 0x21bccf08, 0xef15e8e6,
  0xbae79bd9, 0x4a6f36ce, 0xea9f09d4, 0x29b07cd6, 0x31a4b2af, 0x2a3f2331, 0xc6a59430, 0x35a266c0,
  0x744ebc37, 0xfc82caa6, 0xe090d0b0, 0x33a7d815, 0xf104984a, 0x41ecdaf7, 0x7fcd500e, 0x1791f62f,
  0x764dd68d, 0x43efb04d, 0xccaa4d54, 0xe49604df, 0x9ed1b5e3, 0x4c6a881b, 0xc12c1fb8, 0x4665517f,
  0x9d5eea04, 0x018c355d, 0xfa877473, 0xfb0b412e, 0xb3671d5a, 0x92dbd252, 0xe9105633, 0x6dd64713,
  0x9ad7618c, 0x37a10c7a, 0x59f8148e, 0xeb133c89, 0xcea927ee, 0xb761c935, 0xe11ce5ed, 0x7a47b13c,
  0x9cd2df59, 0x55f2733f, 0x1814ce79, 0x73c737bf, 0x53f7cdea, 0x5ffdaa5b, 0xdf3d6f14, 0x7844db86,
  0xcaaff381, 0xb968c43e, 0x3824342c, 0xc2a3405f, 0x161dc372, 0xbce2250c, 0x283c498b, 0xff0d9541,
  0x39a80171, 0x080cb3de, 0xd8b4e49c, 0x6456c190, 0x7bcb8461, 0xd532b670, 0x486c5c74, 0xd0b85742]

/-- `Td4`. -/
def td4Table : List (BitVec 8) := [
  0x52, 0x09, 0x6a, 0xd5, 0x30, 0x36, 0xa5, 0x38, 0xbf, 0x40, 0xa3, 0x9e, 0x81, 0xf3, 0xd7, 0xfb,
  0x7c, 0xe3, 0x39, 0x82, 0x9b, 0x2f, 0xff, 0x87, 0x34, 0x8e, 0x43, 0x44, 0xc4, 0xde, 0xe9, 0xcb,
  0x54, 0x7b, 0x94, 0x32, 0xa6, 0xc2, 0x23, 0x3d, 0xee, 0x4c, 0x95, 0x0b, 0x42, 0xfa, 0xc3, 0x4e,
  0x08, 0x2e, 0xa1, 0x66, 0x28, 0xd9, 0x24, 0xb2, 0x76, 0x5b, 0xa2, 0x49, 0x6d, 0x8b, 0xd1, 0x25,
  0x72, 0xf8, 0xf6, 0x64, 0x86, 0x68, 0x98, 0x16, 0xd4, 0xa4, 0x5c, 0xcc, 0x5d, 0x65, 0xb6, 0x92,
  0x6c, 0x70, 0x48, 0x50, 0xfd, 0xed, 0xb9, 0xda, 0x5e, 0x15, 0x46, 0x57, 0xa7, 0x8d, 0x9d, 0x84,
  0x90, 0xd8, 0xab, 0x00, 0x8c, 0xbc, 0xd3, 0x0a, 0xf7, 0xe4, 0x58, 0x05, 0xb8, 0xb3, 0x45, 0x06,
  0xd0, 0x2c, 0x1e, 0x8f, 0xca, 0x3f, 0x0f, 0x02, 0xc1, 0xaf, 0xbd, 0x03, 0x01, 0x13, 0x8a, 0x6b,
  0x3a, 0x91, 0x11, 0x41, 0x4f, 0x67, 0xdc, 0xea, 0x97, 0xf2, 0xcf, 0xce, 0xf0, 0xb4, 0xe6, 0x73,
  0x96, 0xac, 0x74, 0x22, 0xe7, 0xad, 0x35, 0x85, 0xe2, 0xf9, 0x37, 0xe8, 0x1c, 0x75, 0xdf, 0x6e,
  0x47, 0xf1, 0x1a, 0x71, 0x1d, 0x29, 0xc5, 0x89, 0x6f, 0xb7, 0x62, 0x0e, 0xaa, 0x18, 0xbe, 0x1b,
  0xfc, 0x56, 0x3e, 0x4b, 0xc6, 0xd2, 0x79, 0x20, 0x9a, 0xdb, 0xc0, 0xfe, 0x78, 0xcd, 0x5a, 0xf4,
  0x1f, 0xdd, 0xa8, 0x33, 0x88, 0x07, 0xc7, 0x31, 0xb1, 0x12, 0x10, 0x59, 0x27, 0x80, 0xec, 0x5f,
  0x60, 0x51, 0x7f, 0xa9, 0x19, 0xb5, 0x4a, 0x0d, 0x2d, 0xe5, 0x7a, 0x9f, 0x93, 0xc9, 0x9c, 0xef,
  0xa0, 0xe0, 0x3b, 0x4d, 0xae, 0x2a, 0xf5, 0xb0, 0xc8, 0xeb, 0xbb, 0x3c, 0x83, 0x53, 0x99, 0x61,
  0x17, 0x2b, 0x04, 0x7e, 0xba, 0x77, 0xd6, 0x26, 0xe1, 0x69, 0x14, 0x63, 0x55, 0x21, 0x0c, 0x7d]

/-- `rcon`. -/
def rcon : List (BitVec 32) := [
  0x01000000, 0x02000000, 0x04000000, 0x08000000, 0x10000000, 0x20000000, 0x40000000, 0x80000000,
  0x1b000000, 0x36000000, 0x6c000000, 0xd8000000, 0xab000000, 0x4d000000, 0x9a000000]

/-- `ZT_ROR32`. -/
def ror32 (x : BitVec 32) (r : ℕ) : BitVec 32 := x >>> r ||| x <<< (32 - r)

def te0 (x : BitVec 32) : BitVec 32 := te0Table.getD x.toNat 0#32

/-- `Te1_r`. -/
def te1r (x : BitVec 32) : BitVec 32 := ror32 (te0 x) 8

/-- `Te2_r`. -/
def te2r (x : BitVec 32) : BitVec 32 := ror32 (te0 x) 16

/-- `Te3_r`. -/
def te3r (x : BitVec 32) : BitVec 32 := ror32 (te0 x) 24

def te4 (x : BitVec 32) : BitVec 32 := te4Table.getD x.toNat 0#32

def td0 (x : BitVec 32) : BitVec 32 := td0Table.getD x.toNat 0#32

/-- `Td1_r`. -/
def td1r (x : BitVec 32) : BitVec 32 := ror32 (td0 x) 8

/-- `Td2_r`. -/
def td2r (x : BitVec 32) : BitVec 32 := ror32 (td0 x) 16

/-- `Td3_r`. -/
def td3r (x : BitVec 32) : BitVec 32 := ror32 (td0 x) 24

/-- `Td4`, widened as the shifts of the source widen it. -/
def td4 (x : BitVec 32) : BitVec 32 := (td4Table.getD x.toNat 0#8).setWidth 32

/-! ### Keys -/

/-- `Utils::loadBigEndian<uint32_t>`. -/
def loadBigEndian (p : Bytes) (i : ℕ) : BitVec 32 := BitVec.ofNat 32 (beNat (slice p i 4))

/-- `Utils::storeBigEndian<uint32_t>`. -/
def storeBigEndian (x : BitVec 32) : Bytes := beBytes 4 x.toNat

/-- One turn of the loop of `p_initSW` that expands the key; the last one stops half way. -/
def expandTurn (ek : List (BitVec 32)) (i : ℕ) : List (BitVec 32) :=
  let rk (j : ℕ) := ek.getD (8 * i + j) 0#32
  let temp := rk 7
  let rk8 := rk 0 ^^^ (te2r ((temp >>> 16) &&& 0xff#32) &&& 0xff000000#32)
    ^^^ (te3r ((temp >>> 8) &&& 0xff#32) &&& 0x00ff0000#32)
    ^^^ (te0 (temp &&& 0xff#32) &&& 0x0000ff00#32) ^^^ (te1r (temp >>> 24) &&& 0x000000ff#32)
    ^^^ rcon.getD i 0#32
  let rk9 := rk 1 ^^^ rk8
  let rk10 := rk 2 ^^^ rk9
  let rk11 := rk 3 ^^^ rk10
  let ek := ek ++ [rk8, rk9, rk10, rk11]
  if i + 1 = 7 then ek
  else
    let temp := rk11
    let rk12 := rk 4 ^^^ (te2r (temp >>> 24) &&& 0xff000000#32)
      ^^^ (te3r ((temp >>> 16) &&& 0xff#32) &&& 0x00ff0000#32)
      ^^^ (te0 ((temp >>> 8) &&& 0xff#32) &&& 0x0000ff00#32)
      ^^^ (te1r (temp &&& 0xff#32) &&& 0x000000ff#32)
    let rk13 := rk 5 ^^^ rk12
    let rk14 := rk 6 ^^^ rk13
    let rk15 := rk 7 ^^^ rk14
    ek ++ [rk12, rk13, rk14, rk15]

/-- `p_k.sw.ek`, as `p_initSW` leaves it. -/
def ek (key : Bytes) : List (BitVec 32) :=
  (List.range 7).foldl expandTurn ((List.range 8).map fun j => loadBigEndian key (4 * j))

/-- The exchange of four words at `i` with those at `j`. -/
def swapFour (rk : ℕ → BitVec 32) (i j : ℕ) : ℕ → BitVec 32 := fun n =>
  if i ≤ n ∧ n < i + 4 then rk (n - i + j) else if j ≤ n ∧ n < j + 4 then rk (n - j + i) else rk n

/-- The word that the last loop of `p_initSW` makes of a word of a round key. -/
def mixWord (x : BitVec 32) : BitVec 32 :=
  td0 (te4 (x >>> 24) &&& 0xff#32) ^^^ td1r (te4 ((x >>> 16) &&& 0xff#32) &&& 0xff#32)
    ^^^ td2r (te4 ((x >>> 8) &&& 0xff#32) &&& 0xff#32) ^^^ td3r (te4 (x &&& 0xff#32) &&& 0xff#32)

/-- `p_k.sw.dk`, as `p_initSW` leaves it: a copy of `ek`, turned around, and mixed from the words of
the second round key to those of the fourteenth. -/
def dk (key : Bytes) : ℕ → BitVec 32 :=
  let rk := (List.range 7).foldl (fun rk k => swapFour rk (4 * k) (56 - 4 * k))
    fun n => (ek key).getD n 0#32
  fun n => if 4 ≤ n ∧ n < 56 then mixWord (rk n) else rk n

/-! ### Blocks -/

/-- The four words of the state, `s0` to `s3` or `t0` to `t3`. -/
structure Words where
  s0 : BitVec 32
  s1 : BitVec 32
  s2 : BitVec 32
  s3 : BitVec 32

/-- The block that is read, under the first round key. -/
def loadBlock (rk : ℕ → BitVec 32) (input : Bytes) : Words :=
  ⟨loadBigEndian input 0 ^^^ rk 0, loadBigEndian input 4 ^^^ rk 1,
    loadBigEndian input 8 ^^^ rk 2, loadBigEndian input 12 ^^^ rk 3⟩

/-- The block that is written. -/
def storeBlock (s : Words) : Bytes :=
  storeBigEndian s.s0 ++ storeBigEndian s.s1 ++ storeBigEndian s.s2 ++ storeBigEndian s.s3

theorem length_storeBigEndian (x : BitVec 32) : (storeBigEndian x).length = 4 := length_beBytes 4 _

/-- A word of a round of `p_encryptSW`. -/
def encryptWord (a b c d k : BitVec 32) : BitVec 32 :=
  te0 (a >>> 24) ^^^ te1r ((b >>> 16) &&& 0xff#32) ^^^ te2r ((c >>> 8) &&& 0xff#32)
    ^^^ te3r (d &&& 0xff#32) ^^^ k

/-- A word of its last round. -/
def encryptLast (a b c d k : BitVec 32) : BitVec 32 :=
  (te2r (a >>> 24) &&& 0xff000000#32) ^^^ (te3r ((b >>> 16) &&& 0xff#32) &&& 0x00ff0000#32)
    ^^^ (te0 ((c >>> 8) &&& 0xff#32) &&& 0x0000ff00#32) ^^^ (te1r (d &&& 0xff#32) &&& 0x000000ff#32)
    ^^^ k

/-- Four words of a round, under the round key `r`. -/
def encryptRound (f : BitVec 32 → BitVec 32 → BitVec 32 → BitVec 32 → BitVec 32 → BitVec 32)
    (rk : ℕ → BitVec 32) (s : Words) (r : ℕ) : Words :=
  ⟨f s.s0 s.s1 s.s2 s.s3 (rk (4 * r)), f s.s1 s.s2 s.s3 s.s0 (rk (4 * r + 1)),
    f s.s2 s.s3 s.s0 s.s1 (rk (4 * r + 2)), f s.s3 s.s0 s.s1 s.s2 (rk (4 * r + 3))⟩

/-- `p_encryptSW`. -/
def encryptSW (key input : Bytes) : Bytes :=
  let rk := fun n => (ek key).getD n 0#32
  let s := (List.range 13).foldl (fun s r => encryptRound encryptWord rk s (r + 1))
    (loadBlock rk input)
  storeBlock (encryptRound encryptLast rk s 14)

theorem length_storeBlock (s : Words) : (storeBlock s).length = 16 := by
  simp only [storeBlock, List.length_append, length_storeBigEndian]

theorem length_encryptSW (key input : Bytes) : (encryptSW key input).length = 16 :=
  length_storeBlock _

/-- A word of a round of `p_decryptSW`. -/
def decryptWord (a b c d k : BitVec 32) : BitVec 32 :=
  td0 (a >>> 24) ^^^ td1r ((b >>> 16) &&& 0xff#32) ^^^ td2r ((c >>> 8) &&& 0xff#32)
    ^^^ td3r (d &&& 0xff#32) ^^^ k

/-- A word of its last round. -/
def decryptLast (a b c d k : BitVec 32) : BitVec 32 :=
  (td4 (a >>> 24) <<< 24) ^^^ (td4 ((b >>> 16) &&& 0xff#32) <<< 16)
    ^^^ (td4 ((c >>> 8) &&& 0xff#32) <<< 8) ^^^ td4 (d &&& 0xff#32) ^^^ k

/-- Four words of a round, which takes its bytes the other way around. -/
def decryptRound (f : BitVec 32 → BitVec 32 → BitVec 32 → BitVec 32 → BitVec 32 → BitVec 32)
    (rk : ℕ → BitVec 32) (s : Words) (r : ℕ) : Words :=
  ⟨f s.s0 s.s3 s.s2 s.s1 (rk (4 * r)), f s.s1 s.s0 s.s3 s.s2 (rk (4 * r + 1)),
    f s.s2 s.s1 s.s0 s.s3 (rk (4 * r + 2)), f s.s3 s.s2 s.s1 s.s0 (rk (4 * r + 3))⟩

/-- `p_decryptSW`. -/
def decryptSW (key input : Bytes) : Bytes :=
  let rk := dk key
  let s := (List.range 13).foldl (fun s r => decryptRound decryptWord rk s (r + 1))
    (loadBlock rk input)
  storeBlock (decryptRound decryptLast rk s 14)

/-! ### Columns in words -/

/-- A column in a word, most significant byte first. -/
def word (c : Column) : BitVec 32 := c.b0 ++ c.b1 ++ c.b2 ++ c.b3

theorem getLsbD_word (c : Column) (i : ℕ) :
    (word c).getLsbD i = if i < 8 then c.b3.getLsbD i else if i < 16 then c.b2.getLsbD (i - 8)
      else if i < 24 then c.b1.getLsbD (i - 16) else c.b0.getLsbD (i - 24) := by
  rw [word, BitVec.getLsbD_append, BitVec.getLsbD_append, BitVec.getLsbD_append]
  split_ifs <;> first | rfl | omega

/-- The bits past the end of a byte. -/
theorem getLsbD_byte {a : Byte} {i : ℕ} (h : 8 ≤ i) : a.getLsbD i = false :=
  BitVec.getLsbD_of_ge _ _ h

theorem word_xor (c d : Column) : word c ^^^ word d = word (c.add d) := by
  refine BitVec.eq_of_getLsbD_eq fun i _ => ?_
  simp only [BitVec.getLsbD_xor, getLsbD_word, Column.add]
  split_ifs <;> rfl

/-- The lowest byte of a word. -/
theorem getLsbD_lowest (x : BitVec 32) {i : ℕ} (hi : i < 32) :
    (x &&& 0xff#32).getLsbD i = (decide (i < 8) && x.getLsbD i) := by
  have h : ∀ i < 32, (0xff#32).getLsbD i = decide (i < 8) := by decide
  rw [BitVec.getLsbD_and, h i hi, Bool.and_comm]

/-- The four places that a byte of a column is read from. -/
theorem byte0_word (c : Column) : word c >>> 24 = c.b0.setWidth 32 := by
  refine BitVec.eq_of_getLsbD_eq fun i hi => ?_
  rw [BitVec.getLsbD_ushiftRight, getLsbD_word, BitVec.getLsbD_setWidth, if_neg (by omega),
    if_neg (by omega), if_neg (by omega), Nat.add_sub_cancel_left, decide_eq_true hi,
    Bool.true_and]

theorem byte1_word (c : Column) : (word c >>> 16) &&& 0xff#32 = c.b1.setWidth 32 := by
  refine BitVec.eq_of_getLsbD_eq fun i hi => ?_
  rw [getLsbD_lowest _ hi, BitVec.getLsbD_ushiftRight, getLsbD_word, BitVec.getLsbD_setWidth,
    decide_eq_true hi, Bool.true_and]
  by_cases h : i < 8
  · rw [decide_eq_true h, Bool.true_and, if_neg (by omega), if_neg (by omega), if_pos (by omega),
      Nat.add_sub_cancel_left]
  · rw [decide_eq_false h, Bool.false_and, getLsbD_byte (by omega)]

theorem byte2_word (c : Column) : (word c >>> 8) &&& 0xff#32 = c.b2.setWidth 32 := by
  refine BitVec.eq_of_getLsbD_eq fun i hi => ?_
  rw [getLsbD_lowest _ hi, BitVec.getLsbD_ushiftRight, getLsbD_word, BitVec.getLsbD_setWidth,
    decide_eq_true hi, Bool.true_and]
  by_cases h : i < 8
  · rw [decide_eq_true h, Bool.true_and, if_neg (by omega), if_pos (by omega),
      Nat.add_sub_cancel_left]
  · rw [decide_eq_false h, Bool.false_and, getLsbD_byte (by omega)]

theorem byte3_word (c : Column) : word c &&& 0xff#32 = c.b3.setWidth 32 := by
  refine BitVec.eq_of_getLsbD_eq fun i hi => ?_
  rw [getLsbD_lowest _ hi, getLsbD_word, BitVec.getLsbD_setWidth, decide_eq_true hi,
    Bool.true_and]
  by_cases h : i < 8
  · rw [decide_eq_true h, Bool.true_and, if_pos h]
  · rw [decide_eq_false h, Bool.false_and, getLsbD_byte (by omega)]

theorem toNat_word (c : Column) :
    (word c).toNat = 2 ^ 24 * c.b0.toNat + 2 ^ 16 * c.b1.toNat + 2 ^ 8 * c.b2.toNat
      + c.b3.toNat := by
  have h1 := c.b1.isLt
  have h2 := c.b2.isLt
  have h3 := c.b3.isLt
  rw [word, BitVec.toNat_append, BitVec.toNat_append, BitVec.toNat_append,
    ← Nat.shiftLeft_add_eq_or_of_lt h1, ← Nat.shiftLeft_add_eq_or_of_lt h2,
    ← Nat.shiftLeft_add_eq_or_of_lt h3]
  simp only [Nat.shiftLeft_eq]
  omega

/-- A word turned by bytes. -/
theorem ror32_word (c : Column) :
    ror32 (word c) 8 = word ⟨c.b3, c.b0, c.b1, c.b2⟩ ∧
      ror32 (word c) 16 = word ⟨c.b2, c.b3, c.b0, c.b1⟩ ∧
      ror32 (word c) 24 = word ⟨c.b1, c.b2, c.b3, c.b0⟩ := by
  have hturn {x : BitVec 32} {k j : ℕ} (h : k + j = 32) :
      (ror32 x k).toNat = x.toNat / 2 ^ k + x.toNat * 2 ^ j % 2 ^ 32 := by
    have hj : 32 - k = j := by omega
    have hlt : x.toNat / 2 ^ k < 2 ^ j := by
      rw [Nat.div_lt_iff_lt_mul (Nat.two_pow_pos k), ← Nat.pow_add, Nat.add_comm j, h]
      exact x.isLt
    have hdvd : 2 ^ j ∣ x.toNat * 2 ^ j % 2 ^ 32 :=
      (Nat.dvd_mod_iff (Nat.pow_dvd_pow 2 (by omega))).mpr (Nat.dvd_mul_left _ _)
    rw [ror32, BitVec.toNat_or, Words.toNat_shiftRight, hj, Words.toNat_shiftLeft,
      Words.or_eq_add hlt hdvd]
  have h0 := c.b0.isLt
  have h1 := c.b1.isLt
  have h2 := c.b2.isLt
  have h3 := c.b3.isLt
  refine ⟨BitVec.eq_of_toNat_eq ?_, BitVec.eq_of_toNat_eq ?_, BitVec.eq_of_toNat_eq ?_⟩
  · rw [hturn (j := 24) rfl, toNat_word, toNat_word]
    dsimp only
    omega
  · rw [hturn (j := 16) rfl, toNat_word, toNat_word]
    dsimp only
    omega
  · rw [hturn (j := 8) rfl, toNat_word, toNat_word]
    dsimp only
    omega

/-- A word with only one of its bytes. -/
theorem and_word (c : Column) :
    word c &&& 0xff000000#32 = word ⟨c.b0, 0#8, 0#8, 0#8⟩ ∧
      word c &&& 0x00ff0000#32 = word ⟨0#8, c.b1, 0#8, 0#8⟩ ∧
      word c &&& 0x0000ff00#32 = word ⟨0#8, 0#8, c.b2, 0#8⟩ ∧
      word c &&& 0x000000ff#32 = word ⟨0#8, 0#8, 0#8, c.b3⟩ := by
  have hmask : ∀ i < 32, (0xff000000#32).getLsbD i = decide (24 ≤ i) ∧
      (0x00ff0000#32).getLsbD i = decide (16 ≤ i ∧ i < 24) ∧
      (0x0000ff00#32).getLsbD i = decide (8 ≤ i ∧ i < 16) ∧
      (0x000000ff#32).getLsbD i = decide (i < 8) := by decide
  refine ⟨?_, ?_, ?_, ?_⟩ <;> refine BitVec.eq_of_getLsbD_eq fun i hi => ?_
  · rw [BitVec.getLsbD_and, (hmask i hi).1, getLsbD_word, getLsbD_word]
    split_ifs <;> simp <;> omega
  · rw [BitVec.getLsbD_and, (hmask i hi).2.1, getLsbD_word, getLsbD_word]
    split_ifs <;> simp <;> omega
  · rw [BitVec.getLsbD_and, (hmask i hi).2.2.1, getLsbD_word, getLsbD_word]
    split_ifs <;> simp <;> omega
  · rw [BitVec.getLsbD_and, (hmask i hi).2.2.2, getLsbD_word, getLsbD_word]
    split_ifs <;> simp <;> omega

/-! ### The tables are the steps of the cipher -/

/-- What the S-box and the mixing make of a byte at the top of a column. -/
theorem te0_byte (a : Byte) :
    te0 (a.setWidth 32) = word ⟨Rijndael.times2 (Rijndael.sub a), Rijndael.sub a, Rijndael.sub a,
      Rijndael.times3 (Rijndael.sub a)⟩ := by
  revert a
  decide +kernel

theorem te4_byte (a : Byte) :
    te4 (a.setWidth 32) &&& 0xff#32 = (Rijndael.sub a).setWidth 32 := by
  revert a
  decide +kernel

/-- What mixing backwards makes of a substituted byte, and the inverse S-box. -/
theorem td0_byte (a : Byte) :
    td0 (a.setWidth 32) = word ⟨Rijndael.times14 (Rijndael.invSub a),
      Rijndael.times9 (Rijndael.invSub a), Rijndael.times13 (Rijndael.invSub a),
      Rijndael.times11 (Rijndael.invSub a)⟩ := by
  revert a
  decide +kernel

theorem td4_byte (a : Byte) : td4 (a.setWidth 32) = (Rijndael.invSub a).setWidth 32 := by
  revert a
  decide +kernel

/-! ### Rounds on words are rounds on columns -/

/-- The state in words. -/
def words (s : State) : Words := ⟨word s.c0, word s.c1, word s.c2, word s.c3⟩

theorem encryptWord_word (a b c d k : Column) :
    encryptWord (word a) (word b) (word c) (word d) (word k)
      = word (((Column.map Rijndael.sub ⟨a.b0, b.b1, c.b2, d.b3⟩).mix).add k) := by
  rw [encryptWord, te1r, te2r, te3r, byte0_word, byte1_word, byte2_word, byte3_word, te0_byte,
    te0_byte, te0_byte, te0_byte, (ror32_word _).1, (ror32_word _).2.1, (ror32_word _).2.2,
    word_xor, word_xor, word_xor, word_xor]
  rfl

/-- The masks of the last round keep the substitute of a byte, at each of the four places. -/
theorem substitute (a : Byte) :
    te2r (a.setWidth 32) &&& 0xff000000#32 = word ⟨Rijndael.sub a, 0#8, 0#8, 0#8⟩ ∧
      te3r (a.setWidth 32) &&& 0x00ff0000#32 = word ⟨0#8, Rijndael.sub a, 0#8, 0#8⟩ ∧
      te0 (a.setWidth 32) &&& 0x0000ff00#32 = word ⟨0#8, 0#8, Rijndael.sub a, 0#8⟩ ∧
      te1r (a.setWidth 32) &&& 0x000000ff#32 = word ⟨0#8, 0#8, 0#8, Rijndael.sub a⟩ := by
  rw [te1r, te2r, te3r, te0_byte, (ror32_word _).1, (ror32_word _).2.1, (ror32_word _).2.2,
    (and_word _).1, (and_word _).2.1, (and_word _).2.2.1, (and_word _).2.2.2]
  exact ⟨rfl, rfl, rfl, rfl⟩

theorem encryptLast_word (a b c d k : Column) :
    encryptLast (word a) (word b) (word c) (word d) (word k)
      = word ((Column.map Rijndael.sub ⟨a.b0, b.b1, c.b2, d.b3⟩).add k) := by
  rw [encryptLast, byte0_word, byte1_word, byte2_word, byte3_word, (substitute _).1,
    (substitute _).2.1, (substitute _).2.2.1, (substitute _).2.2.2, word_xor, word_xor, word_xor,
    word_xor]
  simp only [Column.add, Column.map, BitVec.xor_zero, BitVec.zero_xor]

theorem decryptWord_word (a b c d k : Column) :
    decryptWord (word a) (word b) (word c) (word d) (word k)
      = word (((Column.map Rijndael.invSub ⟨a.b0, b.b1, c.b2, d.b3⟩).invMix).add k) := by
  rw [decryptWord, td1r, td2r, td3r, byte0_word, byte1_word, byte2_word, byte3_word, td0_byte,
    td0_byte, td0_byte, td0_byte, (ror32_word _).1, (ror32_word _).2.1, (ror32_word _).2.2,
    word_xor, word_xor, word_xor, word_xor]
  rfl

/-- A byte moved to a place of a word. -/
theorem word_single (a : Byte) :
    a.setWidth 32 <<< 24 = word ⟨a, 0#8, 0#8, 0#8⟩ ∧ a.setWidth 32 <<< 16 = word ⟨0#8, a, 0#8, 0#8⟩ ∧
      a.setWidth 32 <<< 8 = word ⟨0#8, 0#8, a, 0#8⟩ ∧ a.setWidth 32 = word ⟨0#8, 0#8, 0#8, a⟩ := by
  revert a
  decide +kernel

theorem decryptLast_word (a b c d k : Column) :
    decryptLast (word a) (word b) (word c) (word d) (word k)
      = word ((Column.map Rijndael.invSub ⟨a.b0, b.b1, c.b2, d.b3⟩).add k) := by
  rw [decryptLast, byte0_word, byte1_word, byte2_word, byte3_word, td4_byte, td4_byte, td4_byte,
    td4_byte, (word_single _).1, (word_single _).2.1, (word_single _).2.2.1,
    (word_single _).2.2.2, word_xor, word_xor, word_xor, word_xor]
  simp only [Column.add, Column.map, BitVec.xor_zero, BitVec.zero_xor]

/-- The last loop of `p_initSW` mixes backwards, as the S-box and its inverse cancel. -/
theorem mixWord_word (c : Column) : mixWord (word c) = word c.invMix := by
  rw [mixWord, td1r, td2r, td3r, byte0_word, byte1_word, byte2_word, byte3_word, te4_byte, te4_byte,
    te4_byte, te4_byte, td0_byte, td0_byte, td0_byte, td0_byte, (ror32_word _).1,
    (ror32_word _).2.1, (ror32_word _).2.2, word_xor, word_xor, word_xor]
  simp only [Rijndael.invSub_sub]
  rfl

/-! ### The key schedule -/

/-- The column at an offset of a byte string. -/
def column (p : Bytes) (i : ℕ) : Column :=
  ⟨(byteAt p i).toBitVec, (byteAt p (i + 1)).toBitVec, (byteAt p (i + 2)).toBitVec,
    (byteAt p (i + 3)).toBitVec⟩

/-- The bytes of a column. -/
def columnBytes (c : Column) : Bytes := [⟨c.b0⟩, ⟨c.b1⟩, ⟨c.b2⟩, ⟨c.b3⟩]

theorem toNat_word_eq_beNat (c : Column) : (word c).toNat = beNat (columnBytes c) := by
  rw [toNat_word]
  simp only [columnBytes, beNat, List.foldl_cons, List.foldl_nil, UInt8.toNat]
  omega

theorem slice_eq_columnBytes {p : Bytes} {i : ℕ} (h : i + 4 ≤ p.length) :
    slice p i 4 = columnBytes (column p i) := by
  rw [← slice_append_slice p i 1 3, ← slice_append_slice p (i + 1) 1 2,
    ← slice_append_slice p (i + 1 + 1) 1 1, slice_one (by omega), slice_one (by omega),
    slice_one (by omega), slice_one (by omega)]
  rfl

theorem loadBigEndian_eq {p : Bytes} {i : ℕ} (h : i + 4 ≤ p.length) :
    loadBigEndian p i = word (column p i) := by
  refine BitVec.eq_of_toNat_eq ?_
  rw [loadBigEndian, slice_eq_columnBytes h, ← toNat_word_eq_beNat, BitVec.ofNat_toNat,
    BitVec.setWidth_eq]

theorem storeBigEndian_word (c : Column) : storeBigEndian (word c) = columnBytes c := by
  rw [storeBigEndian, toNat_word_eq_beNat]
  exact beBytes_beNat (columnBytes c)

/-- The columns of a key. -/
def keyColumns (key : Bytes) (j : ℕ) : Column := column key (4 * j)

/-- The words of the key schedule up to the `n`-th. -/
def schedule (key : ℕ → Column) (n : ℕ) : List (BitVec 32) :=
  (List.range n).map fun j => word (Rijndael.keyWord key j)

theorem getD_schedule (key : ℕ → Column) {n j : ℕ} (h : j < n) :
    (schedule key n).getD j 0#32 = word (Rijndael.keyWord key j) := by
  rw [List.getD_eq_getElem?_getD, schedule, List.getElem?_map, List.getElem?_range h]
  rfl

theorem schedule_succ (key : ℕ → Column) (n : ℕ) :
    schedule key (n + 1) = schedule key n ++ [word (Rijndael.keyWord key n)] := by
  rw [schedule, List.range_succ, List.map_append]
  rfl

theorem rcon_eq {i : ℕ} (h : i < 7) :
    rcon.getD i 0#32 = word (Column.single (Rijndael.xtime^[i] 1#8)) := by
  have hall : ∀ i < 7, rcon.getD i 0#32 = word (Column.single (Rijndael.xtime^[i] 1#8)) := by
    decide
  exact hall i h

/-- Words of the key schedule that are not substituted. -/
theorem keyWord_plain (key : ℕ → Column) {n : ℕ} (h0 : (n + 8) % 8 ≠ 0) (h4 : (n + 8) % 8 ≠ 4) :
    word (Rijndael.keyWord key n) ^^^ word (Rijndael.keyWord key (n + 7))
      = word (Rijndael.keyWord key (n + 8)) := by
  rw [word_xor, Rijndael.keyWord_add, Rijndael.keyCore, if_neg h0, if_neg h4]

/-- The first word of eight. -/
theorem keyWord_first (key : ℕ → Column) {i : ℕ} (hi : i < 7) (t : BitVec 32)
    (ht : t = word (Rijndael.keyWord key (8 * i + 7))) :
    word (Rijndael.keyWord key (8 * i)) ^^^ (te2r ((t >>> 16) &&& 0xff#32) &&& 0xff000000#32)
        ^^^ (te3r ((t >>> 8) &&& 0xff#32) &&& 0x00ff0000#32)
        ^^^ (te0 (t &&& 0xff#32) &&& 0x0000ff00#32) ^^^ (te1r (t >>> 24) &&& 0x000000ff#32)
        ^^^ rcon.getD i 0#32
      = word (Rijndael.keyWord key (8 * i + 8)) := by
  have hmod : (8 * i + 8) % 8 = 0 := by omega
  have hdiv : (8 * i + 8) / 8 - 1 = i := by omega
  rw [ht, byte0_word, byte1_word, byte2_word, byte3_word, (substitute _).1, (substitute _).2.1,
    (substitute _).2.2.1, (substitute _).2.2.2, rcon_eq hi, word_xor, word_xor, word_xor, word_xor,
    word_xor, Rijndael.keyWord_add, Rijndael.keyCore, if_pos hmod, hdiv]
  simp only [Column.add, Column.map, Column.turn, Column.single, BitVec.xor_zero]
  congr 2
  exact BitVec.xor_assoc _ _ _

/-- The fifth word of eight. -/
theorem keyWord_fifth (key : ℕ → Column) (i : ℕ) (t : BitVec 32)
    (ht : t = word (Rijndael.keyWord key (8 * i + 11))) :
    word (Rijndael.keyWord key (8 * i + 4)) ^^^ (te2r (t >>> 24) &&& 0xff000000#32)
        ^^^ (te3r ((t >>> 16) &&& 0xff#32) &&& 0x00ff0000#32)
        ^^^ (te0 ((t >>> 8) &&& 0xff#32) &&& 0x0000ff00#32)
        ^^^ (te1r (t &&& 0xff#32) &&& 0x000000ff#32)
      = word (Rijndael.keyWord key (8 * i + 12)) := by
  have hmod : (8 * i + 4 + 8) % 8 = 4 := by omega
  rw [ht, byte0_word, byte1_word, byte2_word, byte3_word, (substitute _).1, (substitute _).2.1,
    (substitute _).2.2.1, (substitute _).2.2.2, word_xor, word_xor, word_xor, word_xor,
    show 8 * i + 12 = 8 * i + 4 + 8 from rfl, Rijndael.keyWord_add key (8 * i + 4),
    Rijndael.keyCore, if_neg (by omega), if_pos hmod]
  simp only [Column.add, Column.map, BitVec.xor_zero]

/-- **A turn of the expansion** appends eight words of the key schedule, and the last one four. -/
theorem expandTurn_schedule (key : ℕ → Column) {i : ℕ} (hi : i < 7) :
    expandTurn (schedule key (8 * i + 8)) i
      = schedule key (if i + 1 = 7 then 8 * i + 12 else 8 * i + 16) := by
  have hget (j : ℕ) (hj : j < 8) :
      (schedule key (8 * i + 8)).getD (8 * i + j) 0#32 = word (Rijndael.keyWord key (8 * i + j)) :=
    getD_schedule key (by omega)
  have h8 := keyWord_first key hi _ rfl
  have h9 := keyWord_plain key (n := 8 * i + 1) (by omega) (by omega)
  have h10 := keyWord_plain key (n := 8 * i + 2) (by omega) (by omega)
  have h11 := keyWord_plain key (n := 8 * i + 3) (by omega) (by omega)
  have h12 := keyWord_fifth key i _ rfl
  have h13 := keyWord_plain key (n := 8 * i + 5) (by omega) (by omega)
  have h14 := keyWord_plain key (n := 8 * i + 6) (by omega) (by omega)
  have h15 := keyWord_plain key (n := 8 * i + 7) (by omega) (by omega)
  have hfour (n : ℕ) : schedule key (n + 4) = schedule key n ++ [word (Rijndael.keyWord key n),
      word (Rijndael.keyWord key (n + 1)), word (Rijndael.keyWord key (n + 2)),
      word (Rijndael.keyWord key (n + 3))] := by
    simp only [schedule_succ, List.append_assoc, List.cons_append, List.nil_append]
  have h0 : (schedule key (8 * i + 8)).getD (8 * i) 0#32 = word (Rijndael.keyWord key (8 * i)) :=
    hget 0 (by omega)
  simp only [expandTurn, h0, hget 1 (by omega), hget 2 (by omega), hget 3 (by omega),
    hget 4 (by omega), hget 5 (by omega), hget 6 (by omega), hget 7 (by omega), Nat.add_zero, h8]
  rw [h9, h10, h11, h12, h13, h14, h15]
  split_ifs with hlast
  · exact (hfour (8 * i + 8)).symm
  · rw [hfour (8 * i + 12), hfour (8 * i + 8)]

/-- **`ek` is the key schedule.** -/
theorem ek_eq {key : Bytes} (h : key.length = 32) : ek key = schedule (keyColumns key) 60 := by
  have hstart : ((List.range 8).map fun j => loadBigEndian key (4 * j))
      = schedule (keyColumns key) 8 := by
    refine List.map_congr_left fun j hj => ?_
    rw [List.mem_range] at hj
    rw [loadBigEndian_eq (by omega), Rijndael.keyWord_of_lt _ hj]
    rfl
  have hturns : ∀ m ≤ 6, (List.range m).foldl expandTurn (schedule (keyColumns key) 8)
      = schedule (keyColumns key) (8 * m + 8) := by
    intro m hm
    induction m with
    | zero => rfl
    | succ m ih =>
        rw [List.range_succ, List.foldl_append, ih (by omega), List.foldl_cons, List.foldl_nil,
          expandTurn_schedule _ (by omega), if_neg (by omega)]
        rfl
  rw [ek, hstart, List.range_succ, List.foldl_append, hturns 6 le_rfl, List.foldl_cons,
    List.foldl_nil, expandTurn_schedule _ (by decide)]
  rfl

/-- The words of a round key. -/
def keyWords (rk : ℕ → BitVec 32) (r : ℕ) : Words :=
  ⟨rk (4 * r), rk (4 * r + 1), rk (4 * r + 2), rk (4 * r + 3)⟩

theorem keyWords_ek {key : Bytes} (h : key.length = 32) {r : ℕ} (hr : r < 15) :
    keyWords (fun n => (ek key).getD n 0#32) r = words (Rijndael.roundKey (keyColumns key) r) := by
  simp only [keyWords, ek_eq h]
  rw [getD_schedule _ (by omega), getD_schedule _ (by omega), getD_schedule _ (by omega),
    getD_schedule _ (by omega)]
  rfl

/-- The exchanges of `p_initSW` turn the round keys around. -/
theorem swaps_eq (rk : ℕ → BitVec 32) {n : ℕ} (hn : n < 60) :
    (List.range 7).foldl (fun rk k => swapFour rk (4 * k) (56 - 4 * k)) rk n
      = rk (4 * (14 - n / 4) + n % 4) := by
  have hswaps : ∀ m ≤ 7, ∀ n < 60,
      (List.range m).foldl (fun rk k => swapFour rk (4 * k) (56 - 4 * k)) rk n
        = if n / 4 < m ∨ 14 - m < n / 4 then rk (4 * (14 - n / 4) + n % 4) else rk n := by
    intro m hm
    induction m with
    | zero =>
        intro n hn
        rw [if_neg (by omega)]
        rfl
    | succ m ih =>
        intro n hn
        rw [List.range_succ, List.foldl_append, List.foldl_cons, List.foldl_nil, swapFour]
        by_cases hlow : 4 * m ≤ n ∧ n < 4 * m + 4
        · rw [if_pos hlow, ih (by omega) _ (by omega), if_neg (by omega), if_pos (by omega)]
          congr 1
          omega
        rw [if_neg hlow]
        by_cases hhigh : 56 - 4 * m ≤ n ∧ n < 56 - 4 * m + 4
        · rw [if_pos hhigh, ih (by omega) _ (by omega), if_neg (by omega), if_pos (by omega)]
          congr 1
          omega
        rw [if_neg hhigh, ih (by omega) n hn]
        refine if_congr ?_ rfl rfl
        omega
  rw [hswaps 7 le_rfl n hn]
  split_ifs with h
  · rfl
  · congr 1
    omega

/-- The key of round `r` of deciphering. -/
def invRoundKey (key : ℕ → Column) (r : ℕ) : State :=
  if 1 ≤ r ∧ r < 14 then (Rijndael.roundKey key (14 - r)).invMix else Rijndael.roundKey key (14 - r)

theorem keyWords_dk {key : Bytes} (h : key.length = 32) {r : ℕ} (hr : r < 15) :
    keyWords (dk key) r = words (invRoundKey (keyColumns key) r) := by
  have hword (j : ℕ) (hj : j < 4) : dk key (4 * r + j) = if 1 ≤ r ∧ r < 14
      then word (Rijndael.keyWord (keyColumns key) (4 * (14 - r) + j)).invMix
      else word (Rijndael.keyWord (keyColumns key) (4 * (14 - r) + j)) := by
    have hindex : 4 * (14 - (4 * r + j) / 4) + (4 * r + j) % 4 = 4 * (14 - r) + j := by omega
    simp only [dk, swaps_eq _ (show 4 * r + j < 60 by omega), hindex, ek_eq h]
    rw [getD_schedule _ (by omega), mixWord_word]
    refine if_congr ?_ rfl rfl
    omega
  rw [keyWords, hword 1 (by decide), hword 2 (by decide), hword 3 (by decide), invRoundKey]
  have h0 := hword 0 (by decide)
  rw [Nat.add_zero] at h0
  rw [h0]
  split_ifs <;> rfl

/-! ### The cipher -/

/-- The state in a block. -/
def blockState (p : Bytes) : State := ⟨column p 0, column p 4, column p 8, column p 12⟩

/-- The block of a state. -/
def stateBlock (s : State) : Bytes :=
  columnBytes s.c0 ++ columnBytes s.c1 ++ columnBytes s.c2 ++ columnBytes s.c3

theorem blockState_stateBlock (s : State) : blockState (stateBlock s) = s := rfl

theorem stateBlock_blockState {p : Bytes} (h : p.length = 16) : stateBlock (blockState p) = p := by
  rw [stateBlock, blockState, ← slice_eq_columnBytes (by omega), ← slice_eq_columnBytes (by omega),
    ← slice_eq_columnBytes (by omega), ← slice_eq_columnBytes (by omega), slice_append_slice,
    slice_append_slice, slice_append_slice]
  exact List.take_of_length_le (by rw [List.drop_zero]; omega)

theorem length_stateBlock (s : State) : (stateBlock s).length = 16 := rfl

theorem storeBlock_words (s : State) : storeBlock (words s) = stateBlock s := by
  simp only [storeBlock, words, storeBigEndian_word, stateBlock]

theorem loadBlock_eq {rk : ℕ → BitVec 32} {p : Bytes} {k : State} (hp : p.length = 16)
    (hk : keyWords rk 0 = words k) : loadBlock rk p = words ((blockState p).add k) := by
  rw [keyWords, words, Words.mk.injEq] at hk
  obtain ⟨h0, h1, h2, h3⟩ := hk
  rw [loadBlock, loadBigEndian_eq (by omega), loadBigEndian_eq (by omega),
    loadBigEndian_eq (by omega), loadBigEndian_eq (by omega), h0, h1, h2, h3, word_xor, word_xor,
    word_xor, word_xor]
  rfl

theorem encryptRound_words {f : BitVec 32 → BitVec 32 → BitVec 32 → BitVec 32 → BitVec 32 → BitVec 32}
    {g : Column → Column}
    (hf : ∀ a b c d k : Column, f (word a) (word b) (word c) (word d) (word k)
      = word ((g (Column.map Rijndael.sub ⟨a.b0, b.b1, c.b2, d.b3⟩)).add k))
    {rk : ℕ → BitVec 32} {r : ℕ} {k : State} (hk : keyWords rk r = words k) (s : State) :
    encryptRound f rk (words s) r = words ((s.scramble.mapColumns g).add k) := by
  rw [keyWords, words, Words.mk.injEq] at hk
  obtain ⟨h0, h1, h2, h3⟩ := hk
  rw [encryptRound, h0, h1, h2, h3]
  simp only [words, hf]
  rfl

theorem decryptRound_words {f : BitVec 32 → BitVec 32 → BitVec 32 → BitVec 32 → BitVec 32 → BitVec 32}
    {g : Column → Column}
    (hf : ∀ a b c d k : Column, f (word a) (word b) (word c) (word d) (word k)
      = word ((g (Column.map Rijndael.invSub ⟨a.b0, b.b1, c.b2, d.b3⟩)).add k))
    {rk : ℕ → BitVec 32} {r : ℕ} {k : State} (hk : keyWords rk r = words k) (s : State) :
    decryptRound f rk (words s) r = words ((s.unscramble.mapColumns g).add k) := by
  rw [keyWords, words, Words.mk.injEq] at hk
  obtain ⟨h0, h1, h2, h3⟩ := hk
  rw [decryptRound, h0, h1, h2, h3]
  simp only [words, hf]
  rfl

/-- Rounds on words, one after another, are rounds on columns. -/
theorem foldl_words {step : Words → ℕ → Words} {round : State → State → State} {K : ℕ → State}
    (h : ∀ s, ∀ r < 14, step (words s) r = words (round s (K r))) :
    ∀ n ≤ 13, ∀ s, (List.range n).foldl (fun s r => step s (r + 1)) (words s)
      = words (((List.range n).map fun r => K (r + 1)).foldl round s) := by
  intro n hn
  induction n with
  | zero => exact fun _ => rfl
  | succ n ih =>
      intro s
      rw [List.range_succ, List.foldl_append, ih (by omega), List.map_append, List.foldl_append]
      exact h _ _ (by omega)

/-- **The source computes AES.** -/
theorem encryptSW_eq {key p : Bytes} (hkey : key.length = 32) (hp : p.length = 16) :
    encryptSW key p = stateBlock (Rijndael.aes256 (keyColumns key) (blockState p)) := by
  have hround : ∀ s, ∀ r < 14, encryptRound encryptWord (fun n => (ek key).getD n 0#32) (words s) r
      = words (Rijndael.cipherRound s (Rijndael.roundKey (keyColumns key) r)) := fun s r hr =>
    encryptRound_words encryptWord_word (keyWords_ek hkey (by omega)) s
  have hlast (s : State) := encryptRound_words (g := id) encryptLast_word
    (keyWords_ek hkey (show 14 < 15 by decide)) s
  rw [encryptSW, loadBlock_eq hp (keyWords_ek hkey (by decide)), foldl_words hround 13 le_rfl,
    hlast, storeBlock_words]
  rfl

/-- **The source deciphers AES.** -/
theorem decryptSW_eq {key p : Bytes} (hkey : key.length = 32) (hp : p.length = 16) :
    decryptSW key p = stateBlock (Rijndael.invAes256 (keyColumns key) (blockState p)) := by
  have hround : ∀ s, ∀ r < 14, decryptRound decryptWord (dk key) (words s) r
      = words (Rijndael.equivalentRound s (invRoundKey (keyColumns key) r)) := fun s r hr =>
    decryptRound_words decryptWord_word (keyWords_dk hkey (by omega)) s
  have hlast (s : State) := decryptRound_words (g := id) decryptLast_word
    (keyWords_dk hkey (show 14 < 15 by decide)) s
  have hkeys : ((List.range 13).map fun r => invRoundKey (keyColumns key) (r + 1))
      = (Rijndael.middleKeys (keyColumns key)).reverse.map State.invMix := rfl
  rw [decryptSW, loadBlock_eq hp (keyWords_dk hkey (by decide)), foldl_words hround 13 le_rfl,
    hlast, storeBlock_words, hkeys, Rijndael.invAes256, ← Rijndael.equivalentDecipher_eq]
  rfl

/-- The source undoes what it computes. -/
theorem aes_undo {key p : Bytes} (hkey : key.length = 32) (hp : p.length = 16) :
    decryptSW key (encryptSW key p) = p ∧ encryptSW key (decryptSW key p) = p := by
  refine ⟨?_, ?_⟩
  · rw [encryptSW_eq hkey hp, decryptSW_eq hkey (length_stateBlock _), blockState_stateBlock,
      Rijndael.invAes256_aes256, stateBlock_blockState hp]
  · rw [decryptSW_eq hkey hp, encryptSW_eq hkey (length_stateBlock _), blockState_stateBlock,
      Rijndael.aes256_invAes256, stateBlock_blockState hp]

/-- **For every key and every block** the source computes AES and its inverse, which undo each
other. -/
theorem aes_roundtrip {key p : Bytes} (hkey : key.length = 32) (hp : p.length = 16) :
    encryptSW key p = stateBlock (Rijndael.aes256 (keyColumns key) (blockState p)) ∧
      decryptSW key (encryptSW key p) = p ∧ encryptSW key (decryptSW key p) = p :=
  ⟨encryptSW_eq hkey hp, aes_undo hkey hp⟩

theorem aes_roundtrip_zero :
    encryptSW (List.replicate 32 0) (List.replicate 16 0) = [0xdc, 0x95, 0xc0, 0x78, 0xa2, 0x40,
      0x89, 0x89, 0xad, 0x48, 0xa2, 0x14, 0x92, 0x84, 0x20, 0x87] ∧
      decryptSW (List.replicate 32 0) (encryptSW (List.replicate 32 0) (List.replicate 16 0))
        = List.replicate 16 0 :=
  ⟨by decide +kernel, (aes_roundtrip (List.length_replicate ..) (List.length_replicate ..)).2.1⟩

end Aes

end ZGalaxy
